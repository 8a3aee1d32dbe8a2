import ProtoTypings.Proofs.DescriptorWalk
import ProtoTypings.Proofs.OutputNames
/-!
# Write, then check

A run that wrote its declaration files leaves a disk on which the same command
line with `--check` finds all of them up to date, and on which the same command
line without it is refused at the first file. Both runs load what the first one
loaded, although its outputs may be among the files that they walk.

**Arguments.** `arguments.checking` are the arguments with `--check` added. The
other options are read the same with it, unless it is given a second time.

**Results.**
* `Arguments.read_checking`: what `--check` adds to a command line.
* `Invocation.Log.current`, `Invocation.Log.refused`: what a check and another
  write find after a write.
* `Invocation.check_after_write`: both for the command line of a run.
-/
namespace ProtoTypings

/-! ## The arguments of a check -/

namespace Arguments

/-- The arguments with `--check` among them. -/
def checking (arguments : Arguments) : Arguments := { arguments with check := true }

variable {arguments next : Arguments}

theorem give_checking {option : ValueOption} {value : String}
    (h : arguments.give option value = .ok next) (hcheck : next.check = false) :
    arguments.check = false ∧ arguments.checking.give option value = .ok next.checking := by
  cases option with
  | file =>
    cases h
    exact ⟨hcheck, rfl⟩
  | descriptorSet =>
    obtain ⟨path, hpath, h⟩ := bind_eq_ok_iff.1 h
    cases h
    exact ⟨hcheck, bind_eq_ok_iff.2 ⟨path, hpath, rfl⟩⟩
  | descriptorDir =>
    obtain ⟨path, hpath, h⟩ := bind_eq_ok_iff.1 h
    obtain ⟨only, honly, h⟩ := bind_eq_ok_iff.1 h
    cases h
    exact ⟨hcheck, bind_eq_ok_iff.2 ⟨path, hpath, bind_eq_ok_iff.2 ⟨only, honly, rfl⟩⟩⟩
  | output =>
    obtain ⟨path, hpath, h⟩ := bind_eq_ok_iff.1 h
    obtain ⟨only, honly, h⟩ := bind_eq_ok_iff.1 h
    cases h
    exact ⟨hcheck, bind_eq_ok_iff.2 ⟨path, hpath, bind_eq_ok_iff.2 ⟨only, honly, rfl⟩⟩⟩
  | parameter =>
    obtain ⟨only, honly, h⟩ := bind_eq_ok_iff.1 h
    cases h
    exact ⟨hcheck, bind_eq_ok_iff.2 ⟨only, honly, rfl⟩⟩

theorem unset_eq_ok {flag : Flag} {before value : Bool} (h : unset flag before = .ok value) :
    value = true := by
  unfold unset at h
  split at h
  · cases h
  · exact (Except.ok.inj h).symm

theorem raise_checking {flag : Flag} (h : arguments.raise flag = .ok next)
    (hcheck : next.check = false) :
    arguments.check = false ∧ arguments.checking.raise flag = .ok next.checking := by
  cases flag with
  | verbose =>
    cases h
    exact ⟨hcheck, rfl⟩
  | dryRun =>
    obtain ⟨value, hvalue, h⟩ := bind_eq_ok_iff.1 h
    cases h
    exact ⟨hcheck, bind_eq_ok_iff.2 ⟨value, hvalue, rfl⟩⟩
  | force =>
    obtain ⟨value, hvalue, h⟩ := bind_eq_ok_iff.1 h
    cases h
    exact ⟨hcheck, bind_eq_ok_iff.2 ⟨value, hvalue, rfl⟩⟩
  | check =>
    obtain ⟨value, hvalue, h⟩ := bind_eq_ok_iff.1 h
    cases h
    rw [unset_eq_ok hvalue] at hcheck
    cases hcheck
  | help => cases h
  | version => cases h

theorem readLong_checking {body : List Char} {waiting : Option ValueOption}
    (h : arguments.readLong body = .ok (next, waiting)) (hcheck : next.check = false) :
    arguments.check = false ∧ arguments.checking.readLong body = .ok (next.checking, waiting) := by
  unfold readLong at h ⊢
  dsimp only at h ⊢
  split at h
  · cases h
    exact ⟨hcheck, rfl⟩
  · obtain ⟨given, hgiven, h⟩ := bind_eq_ok_iff.1 h
    cases h
    obtain ⟨hbefore, hgiven⟩ := give_checking hgiven hcheck
    exact ⟨hbefore, bind_eq_ok_iff.2 ⟨_, hgiven, rfl⟩⟩
  · obtain ⟨raised, hraised, h⟩ := bind_eq_ok_iff.1 h
    cases h
    obtain ⟨hbefore, hraised⟩ := raise_checking hraised hcheck
    exact ⟨hbefore, bind_eq_ok_iff.2 ⟨_, hraised, rfl⟩⟩
  · cases h
  · cases h

theorem readShort_checking {chars : List Char} {waiting : Option ValueOption}
    (h : arguments.readShort chars = .ok (next, waiting)) (hcheck : next.check = false) :
    arguments.check = false ∧
      arguments.checking.readShort chars = .ok (next.checking, waiting) := by
  induction chars generalizing arguments with
  | nil =>
    cases h
    exact ⟨hcheck, rfl⟩
  | cons c rest ih =>
    unfold readShort at h ⊢
    split at h
    · obtain ⟨raised, hraised, h⟩ := bind_eq_ok_iff.1 h
      obtain ⟨hmid, hrest⟩ := ih h
      obtain ⟨hbefore, hraised⟩ := raise_checking hraised hmid
      exact ⟨hbefore, bind_eq_ok_iff.2 ⟨_, hraised, hrest⟩⟩
    · cases h
      exact ⟨hcheck, rfl⟩
    · obtain ⟨given, hgiven, h⟩ := bind_eq_ok_iff.1 h
      cases h
      obtain ⟨hbefore, hgiven⟩ := give_checking hgiven hcheck
      exact ⟨hbefore, bind_eq_ok_iff.2 ⟨_, hgiven, rfl⟩⟩
    · obtain ⟨given, hgiven, h⟩ := bind_eq_ok_iff.1 h
      cases h
      obtain ⟨hbefore, hgiven⟩ := give_checking hgiven hcheck
      exact ⟨hbefore, bind_eq_ok_iff.2 ⟨_, hgiven, rfl⟩⟩
    · cases h

theorem readFrom_checking {list : List String} {waiting : Option ValueOption}
    (h : arguments.readFrom waiting list = .ok next) (hcheck : next.check = false) :
    arguments.check = false ∧ arguments.checking.readFrom waiting list = .ok next.checking := by
  induction list generalizing arguments waiting with
  | nil =>
    cases waiting with
    | some option => cases h
    | none =>
      cases h
      exact ⟨hcheck, rfl⟩
  | cons argument rest ih =>
    unfold readFrom at h ⊢
    cases waiting with
    | some option =>
      dsimp only at h ⊢
      split at h
      · next hvalue =>
        rw [if_pos hvalue]
        obtain ⟨given, hgiven, h⟩ := bind_eq_ok_iff.1 h
        obtain ⟨hmid, hrest⟩ := ih h
        obtain ⟨hbefore, hgiven⟩ := give_checking hgiven hmid
        exact ⟨hbefore, bind_eq_ok_iff.2 ⟨_, hgiven, hrest⟩⟩
      · cases h
    | none =>
      dsimp only at h ⊢
      split at h
      · split at h
        · cases h
          exact ⟨hcheck, rfl⟩
        · cases h
      · obtain ⟨⟨mid, waiting⟩, hlong, h⟩ := bind_eq_ok_iff.1 h
        obtain ⟨hmid, hrest⟩ := ih h
        obtain ⟨hbefore, hlong⟩ := readLong_checking hlong hmid
        exact ⟨hbefore, bind_eq_ok_iff.2 ⟨_, hlong, hrest⟩⟩
      · obtain ⟨⟨mid, waiting⟩, hshort, h⟩ := bind_eq_ok_iff.1 h
        obtain ⟨hmid, hrest⟩ := ih h
        obtain ⟨hbefore, hshort⟩ := readShort_checking hshort hmid
        exact ⟨hbefore, bind_eq_ok_iff.2 ⟨_, hshort, hrest⟩⟩
      · cases h

theorem read_eq_ok_iff {list : List String} :
    read list = .ok arguments ↔
      readFrom {} none list = .ok arguments ∧ arguments.exclusion? = none := by
  unfold read
  rw [bind_eq_ok_iff]
  constructor
  · rintro ⟨found, hfound, h⟩
    split at h
    · cases h
    · next hnone =>
      cases h
      exact ⟨hfound, hnone⟩
  · rintro ⟨hfound, hnone⟩
    exact ⟨arguments, hfound, by rw [hnone]⟩

/-- A command line that says nothing of `--force`, `--dry-run` and `--check` is read
the same with `--check` before it. -/
theorem read_checking {list : List String} (h : read list = .ok arguments)
    (hforce : arguments.force = false) (hdry : arguments.dryRun = false)
    (hcheck : arguments.check = false) :
    read ("--check" :: list) = .ok arguments.checking := by
  obtain ⟨hfrom, hnone⟩ := read_eq_ok_iff.1 h
  refine read_eq_ok_iff.2 ⟨(readFrom_checking hfrom hcheck).2, ?_⟩
  unfold exclusion? at hnone ⊢
  unfold checking
  dsimp only
  simp only [hforce, hdry, Bool.and_false, Bool.false_eq_true, if_false] at hnone ⊢
  exact hnone

theorem command_checking {environment : Option String} {invocation : Invocation}
    (h : arguments.command environment = .files invocation) :
    arguments.checking.command environment = .files { invocation with mode := .compare } := by
  unfold command at h ⊢
  unfold checking
  dsimp only
  split at h
  · cases h
  · next hsource =>
    cases h
    rw [if_neg hsource]
    rfl

end Arguments

/-! ## What comes after a write -/

theorem Text.fromUTF8?_toUTF8 (text : String) : String.fromUTF8? text.toUTF8 = some text := by
  unfold String.fromUTF8?
  rw [dif_pos (show text.toUTF8.IsValidUTF8 from text.isValidUTF8)]
  rfl

namespace Invocation

theorem generated_outputs {invocation : Invocation} {machine : Machine} {outputs : List Output}
    (h : invocation.generated machine = .ok outputs) :
    outputs ≠ [] ∧ ∀ output ∈ outputs, Path.IsTyping output.name := by
  obtain ⟨files, -, houtputs⟩ := generated_eq_ok_iff.1 h
  obtain ⟨hfiles, settings, -, hrun⟩ := outputs_eq_ok_iff.1 houtputs
  obtain ⟨hsources, hnames⟩ := generate_names hrun
  refine ⟨?_, fun output houtput => ?_⟩
  · rintro rfl
    -- something is asked for, as there are files
    have hasked : ∃ path, path ∈ invocation.request files := by
      unfold request
      split
      · obtain ⟨file, hfile⟩ := List.exists_mem_of_ne_nil files hfiles
        exact ⟨file.path, List.mem_map_of_mem hfile⟩
      · next hsome => exact List.exists_mem_of_ne_nil _ fun h => hsome (by rw [h]; rfl)
    obtain ⟨path, hpath⟩ := hasked
    rw [← mem_requestedPaths, ← hsources] at hpath
    cases hpath
  · have hname : output.name ∈ outputs.map (·.name) := List.mem_map_of_mem houtput
    rw [hnames] at hname
    obtain ⟨path, -, hpath⟩ := List.mem_map.1 hname
    rw [← hpath]
    exact Path.isTyping_nameFor path

theorem stalenessOn_eq_none {disk : Disk} {path content : String}
    (h : disk.read path = .ok content.toUTF8) : stalenessOn disk path content = none := by
  unfold stalenessOn
  rw [h]
  simp only [Except.toOption, Option.bind_some, Text.fromUTF8?_toUTF8, if_true]

/-- Where every file has its content, a comparison succeeds. -/
theorem compareAll_current {invocation : Invocation} {outputs : List Output} {machine : Machine}
    (h : ∀ output ∈ outputs, ∃ path, invocation.outputPath output = .ok path ∧
      machine.disk.read path = .ok output.content.toUTF8) :
    (invocation.compareAll outputs : MachineM Unit).run.run machine =
      (.ok (), { machine with
        printed := machine.printed ++ (toString outputs.length ++ " file(s) up to date\n") }) := by
  have hstale : outputs.mapM (fun output => invocation.outputPath output >>= fun path =>
      .ok (stalenessOn machine.disk path output.content)) =
      (.ok (outputs.map fun _ => none) : Except RunFault (List (Option String))) := by
    rw [mapM_eq_ok_iff, List.forall₂_map_right_iff, List.forall₂_same]
    intro output houtput
    obtain ⟨path, hpath, hread⟩ := h output houtput
    exact bind_eq_ok_iff.2 ⟨path, hpath, by rw [stalenessOn_eq_none hread]⟩
  have hrun := reads_stale invocation outputs machine
  dsimp only at hrun
  rw [hstale] at hrun
  unfold compareAll
  rw [MachineM.run_bind_ok hrun, if_pos (by simp)]
  rfl

namespace Log

variable {invocation : Invocation} {before after : Disk} {written : List (Output × String)}

/-- What was written is there, complete. -/
theorem current (h : invocation.Log false before written after) :
    ∀ w ∈ written, ∃ path, invocation.outputPath w.1 = .ok path ∧
      after.read path = .ok w.1.content.toUTF8 := by
  intro w hw
  obtain ⟨path, hpath, hplace⟩ := h.located w hw
  refine ⟨path, hpath, Disk.read_eq_ok_iff.2 ⟨w.2, hplace, ?_⟩⟩
  obtain ⟨earlier, later, hsplit⟩ := List.append_of_mem hw
  have hnodup := h.fresh.2
  rw [hsplit, List.map_append, List.map_cons] at hnodup
  exact h.get?_of_last hsplit (List.nodup_cons.1 hnodup.of_append_right).1

/-- The first output is refused the next time. -/
theorem refused {output : Output} {place : String}
    (h : invocation.Log false before ((output, place) :: written) after) (printed : String) :
    ∃ path, invocation.outputPath output = .ok path ∧
      (invocation.writeOne false output).run.run { disk := after, printed := printed } =
        (.error (.alreadyExists path), { disk := after, printed := printed }) := by
  obtain ⟨path, hpath, hread⟩ := h.current _ List.mem_cons_self
  obtain ⟨found, hfound, hget⟩ := Disk.read_eq_ok_iff.1 hread
  refine ⟨path, hpath, ?_⟩
  cases h with
  | write hpath' hwrites hlog =>
    obtain rfl := Except.ok.inj (hpath.symm.trans hpath')
    rw [run_writeOne hpath, run_writeOutput, hwrites.makePath_again hlog.keeps]
    dsimp only
    rw [Disk.isPresent_iff.2 ⟨found, _, hfound, hget⟩]
    rfl

theorem growsByTypings (h : invocation.Log false before written after)
    (hnames : ∀ w ∈ written, Path.IsTyping w.1.name) : before.GrowsByTypings after := by
  obtain ⟨added, hgrows, hadded⟩ := h.growsBy
  refine ⟨added, hgrows, fun x hx => (hadded x hx).imp_right fun hplace => ?_⟩
  obtain ⟨w, hw, hx⟩ := List.mem_map.1 hplace
  obtain ⟨path, hpath, hlocated⟩ := h.located w hw
  rw [(outputPath_eq_ok_iff.1 hpath).2] at hlocated
  rw [← hx]
  exact Disk.isTyping_of_locate ((hnames w hw).join _) hlocated

end Log

/-! ## Two runs -/

/-- What a run finds when it ends that was to write without overwriting and
succeeded. -/
theorem log_of_runOn {invocation : Invocation} {machine after : Machine}
    (hmode : invocation.mode = .write false) (hrun : invocation.runOn machine = (.ok (), after)) :
    ∃ written, invocation.generated machine = .ok (written.map Prod.fst) ∧
      invocation.Log false machine.disk written after.disk := by
  rw [runOn_eq] at hrun
  cases hgenerated : invocation.generated machine with
  | error fault =>
    rw [hgenerated] at hrun
    cases hrun
  | ok outputs =>
    rw [hgenerated] at hrun
    dsimp only at hrun
    obtain ⟨result, written, disk, hdeliver, hlog, hfirst, hall⟩ :=
      log_deliver hmode outputs machine
    rw [hdeliver] at hrun
    obtain ⟨rfl, rfl⟩ := Prod.mk.inj hrun
    have houtputs : written.map Prod.fst = outputs :=
      hfirst.eq_of_length (by rw [List.length_map]; exact hall.1 rfl)
    exact ⟨written, by rw [houtputs], hlog⟩

/-- **Write, then check.** After a run without `--force`, `--dry-run` and `--check` has
succeeded, a command line that says the same and `--check` finds as many files up
to date as were generated and changes nothing, and the same command line is
refused at the first file and changes nothing. -/
theorem check_after_write {list : List String} {arguments : Arguments}
    {environment : Option String} {invocation : Invocation} {machine after : Machine}
    (hread : Arguments.read list = .ok arguments)
    (hcommand : arguments.command environment = .files invocation)
    (hforce : arguments.force = false) (hdry : arguments.dryRun = false)
    (hcheck : arguments.check = false) (hrun : invocation.runOn machine = (.ok (), after)) :
    Arguments.read ("--check" :: list) = .ok { arguments with check := true } ∧
    ∃ outputs, invocation.generated machine = .ok outputs ∧
      (∀ other, Arguments.read other = .ok { arguments with check := true } →
        ∃ checking, Command.ofArguments other environment = .ok (.files checking) ∧
          checking.runOn after =
            (.ok (), { after with
              printed := after.printed ++ (toString outputs.length ++ " file(s) up to date\n") })) ∧
      ∃ path, invocation.runOn after = (.error (.alreadyExists path), after) := by
  have hmode : invocation.mode = .write false := by
    rw [mode_of_command hcommand, Arguments.mode, hcheck, hdry, hforce]
    rfl
  obtain ⟨written, hgenerated, hlog⟩ := log_of_runOn hmode hrun
  obtain ⟨hsome, hnames⟩ := generated_outputs hgenerated
  have hgrows := hlog.growsByTypings fun w hw => hnames w.1 (List.mem_map_of_mem hw)
  refine ⟨Arguments.read_checking hread hforce hdry hcheck, _, hgenerated, ?_, ?_⟩
  · intro other hother
    refine ⟨{ invocation with mode := .compare }, ?_, ?_⟩
    · exact bind_eq_ok_iff.2 ⟨_, hother, congrArg Except.ok (Arguments.command_checking hcommand)⟩
    · have hagain : { invocation with mode := .compare }.generated after = _ :=
        generated_again hgrows hgenerated
      rw [runOn_eq, hagain]
      refine compareAll_current fun output houtput => ?_
      obtain ⟨w, hw, rfl⟩ := List.mem_map.1 houtput
      exact hlog.current w hw
  · rw [runOn_eq, generated_again hgrows hgenerated]
    dsimp only
    rw [deliver_eq_forM hmode]
    cases written with
    | nil => exact absurd rfl hsome
    | cons first rest =>
      obtain ⟨path, -, hrefused⟩ := hlog.refused after.printed
      exact ⟨path, MachineM.run_bind_error hrefused⟩

end Invocation

namespace Sample

/-- A descriptor set of the empty file `a.proto`. -/
def plainSet : ByteArray :=
  ⟨#[0x0A, 9, 0x0A, 7, 0x61, 0x2E, 0x70, 0x72, 0x6F, 0x74, 0x6F]⟩

def plain : List File := [{ name := some "a.proto" }]

/-- The set is the only file in the working directory. -/
def plainMachine : Machine := { disk := { entries := [("/in.pb", .file plainSet)] } }

/-- The walk begins where the outputs go. -/
def plainArguments : Arguments := { descriptorDir := some "." }

def plainInvocation : Invocation := { descriptorDir := some "." }

theorem plain_loaded : plainInvocation.loadFrom plainMachine.disk = .ok plain := by
  have hfiles : plainMachine.disk.filesUnder "." = ["./in.pb"] := by
    have hbelow : plainMachine.disk.filesBelow "" = ["in.pb"] := List.mergeSort_singleton "in.pb"
    show ((plainMachine.disk.filesBelow "").map (Path.join ".")).filter _ = _
    rw [hbelow]
    rfl
  have hdescriptors : ["./in.pb"].filter Path.isDescriptorSet = ["./in.pb"] := by decide +kernel
  have hpaths : plainInvocation.setPathsOn plainMachine.disk = .ok ["./in.pb"] := by
    show (Except.ok ([] ++ (plainMachine.disk.filesUnder ".").filter Path.isDescriptorSet) :
      Except RunFault (List String)) = _
    rw [hfiles, hdescriptors]
    rfl
  have hread : plainMachine.disk.read "./in.pb" = .ok plainSet := rfl
  have hdecode : File.decodeSet plainSet.data.toList = some plain := by with_unfolding_all rfl
  have hsets : ["./in.pb"].mapM plainMachine.disk.loadSet = .ok [plain] :=
    mapM_eq_ok_iff.2 (.cons (Disk.loadSet_eq_ok_iff.2 ⟨_, hread, hdecode⟩) .nil)
  exact bind_eq_ok_iff.2 ⟨_, hpaths, bind_eq_ok_iff.2 ⟨_, hsets, rfl⟩⟩

theorem plain_generated :
    ∃ content, plainInvocation.generated plainMachine =
      .ok [⟨"a.proto", "a.d.ts", content⟩] := by
  have hpaths : (plain.map (·.path)).Pairwise (· < ·) := by decide
  have hrun : ∃ content, generate {} plain (plain.map (·.path)) =
      .ok [⟨"a.proto", "a.d.ts", content⟩] := by
    simp only [generate, requestedPaths_of_pairwise hpaths]
    exact ⟨_, rfl⟩
  obtain ⟨content, h⟩ := hrun
  refine ⟨content, Invocation.generated_eq_ok_iff.2 ⟨plain, plain_loaded, ?_⟩⟩
  exact Invocation.outputs_eq_ok_iff.2 ⟨by simp [plain], {}, rfl, h⟩

theorem plain_written : ∃ after, plainInvocation.runOn plainMachine = (.ok (), after) := by
  obtain ⟨content, hgenerated⟩ := plain_generated
  have hpath : plainInvocation.outputPath ⟨"a.proto", "a.d.ts", content⟩ = .ok "./a.d.ts" :=
    Invocation.outputPath_eq_ok_iff.2
      ⟨(by decide : Path.escapes "a.d.ts" = false),
        (by decide : "./a.d.ts" = Path.join "." "a.d.ts")⟩
  have hmade : plainMachine.disk.makePath (Path.parent "./a.d.ts") =
      (.ok (), plainMachine.disk) := rfl
  have habsent : plainMachine.disk.isPresent "./a.d.ts" = false := rfl
  have hwrite : plainMachine.disk.write "./a.d.ts" content.toUTF8 =
      .ok (plainMachine.disk.put "/a.d.ts" (.file content.toUTF8)) := rfl
  have hone : ∃ after, (plainInvocation.writeOne false ⟨"a.proto", "a.d.ts", content⟩).run.run
      plainMachine = (.ok (), after) := by
    rw [Invocation.run_writeOne hpath, Invocation.run_writeOutput, hmade]
    dsimp only
    rw [habsent, hwrite]
    exact ⟨_, rfl⟩
  obtain ⟨after, hone⟩ := hone
  rw [Invocation.runOn_eq, hgenerated]
  exact ⟨after, MachineM.run_bind_ok hone⟩

end Sample

/-- The sample run writes into the directory that it walks; the check and the second
run walk over what it wrote. -/
theorem Invocation.check_after_write_plain :
    ∃ after, Sample.plainInvocation.runOn Sample.plainMachine = (.ok (), after) ∧
      (∃ checking,
        Command.ofArguments ["--check", "--descriptor-dir", "."] none = .ok (.files checking) ∧
        checking.runOn after =
          (.ok (), { after with printed := after.printed ++ "1 file(s) up to date\n" })) ∧
      ∃ path, Sample.plainInvocation.runOn after = (.error (.alreadyExists path), after) := by
  have hread : Arguments.read ["--descriptor-dir", "."] = .ok Sample.plainArguments := rfl
  have hcommand : Sample.plainArguments.command none = .files Sample.plainInvocation := rfl
  obtain ⟨content, hgenerated⟩ := Sample.plain_generated
  obtain ⟨after, hrun⟩ := Sample.plain_written
  obtain ⟨hlist, outputs, houtputs, hchecks, hrefused⟩ :=
    check_after_write hread hcommand rfl rfl rfl hrun
  obtain ⟨checking, hchecking, hcurrent⟩ := hchecks _ hlist
  obtain rfl := Except.ok.inj (hgenerated.symm.trans houtputs)
  have hone : toString 1 = "1" := by decide +kernel
  rw [List.length_singleton, hone] at hcurrent
  exact ⟨after, hrun, ⟨checking, hchecking, hcurrent⟩, hrefused⟩

end ProtoTypings
