import ProtoTypings.CommandLine.Machine
import ProtoTypings.Proofs.DiskGrowth
import ProtoTypings.Proofs.RunOrder
/-!
# Runs on a machine

A run loads descriptors, generates and delivers. Here each part is taken from
the monad that it is written in to the disk that it works on.

**Looking.** `Reads x value`: the computation `x` leaves the machine alone, and
its result is a function of the disk. There is one rule for each way in which
computations are put together.

**Results.**
* `Invocation.reads_load`: loading only looks, and what it finds is `loadFrom`.
* `Invocation.outputs_eq_ok_iff`: what it takes to generate from loaded files.
* `Invocation.runOn_eq`: a run is what was generated, delivered.
* `Invocation.keepsDisk_deliver`: previews and comparisons leave the disk alone.
* `Invocation.writeOutput_cases`: all that writing one file can do.
-/
namespace ProtoTypings

/-- Computations of a run on a machine. -/
abbrev MachineM := ExceptT RunFault (StateM Machine)

namespace MachineM

variable {α β : Type}

theorem run_bind (x : MachineM α) (f : α → MachineM β) (machine : Machine) :
    (x >>= f).run.run machine =
      (ExceptT.bindCont f (x.run.run machine).1).run (x.run.run machine).2 := rfl

theorem run_bind_ok {x : MachineM α} {f : α → MachineM β} {machine next : Machine} {a : α}
    (h : x.run.run machine = (.ok a, next)) :
    (x >>= f).run.run machine = (f a).run.run next := by
  rw [run_bind, h]
  rfl

theorem run_bind_error {x : MachineM α} {f : α → MachineM β} {machine next : Machine}
    {fault : RunFault} (h : x.run.run machine = (.error fault, next)) :
    (x >>= f).run.run machine = (.error fault, next) := by
  rw [run_bind, h]
  rfl

theorem run_makeDirectories (path : String) (machine : Machine) :
    (liftM (FileAccess.makeDirectories path : StateM Machine (Except FileFault Unit)) :
      MachineM (Except FileFault Unit)).run.run machine =
      (.ok (machine.disk.makePath path).1,
        { machine with disk := (machine.disk.makePath path).2 }) := rfl

theorem run_writeText (path content : String) (machine : Machine) :
    (liftM (FileAccess.writeText path content : StateM Machine (Except FileFault Unit)) :
      MachineM (Except FileFault Unit)).run.run machine =
      match machine.disk.write path content.toUTF8 with
      | .ok disk => (.ok (.ok ()), { machine with disk := disk })
      | .error fault => (.ok (.error fault), machine) := by
  have hrun : (liftM (FileAccess.writeText path content : StateM Machine (Except FileFault Unit)) :
      MachineM (Except FileFault Unit)).run.run machine =
      (fun step : Except FileFault Unit × Machine => (.ok step.1, step.2))
        (match machine.disk.write path content.toUTF8 with
          | .ok disk => (.ok (), { machine with disk := disk })
          | .error fault => (.error fault, machine)) := rfl
  rw [hrun]
  cases machine.disk.write path content.toUTF8 with
  | ok disk => rfl
  | error fault => rfl

/-! ## Looking -/

/-- The computation leaves the machine alone; its result can be read off the
disk. -/
def Reads (x : MachineM α) (value : Disk → Except RunFault α) : Prop :=
  ∀ machine : Machine, x.run.run machine = (value machine.disk, machine)

theorem reads_pure (a : α) : Reads (pure a) fun _ => .ok a := fun _ => rfl

theorem reads_throw (fault : RunFault) : Reads (throw fault : MachineM α) fun _ => .error fault :=
  fun _ => rfl

theorem reads_lift (e : Except RunFault α) : Reads (liftM e) fun _ => e := fun _ => rfl

theorem reads_readBytes (path : String) :
    Reads (liftM (FileAccess.readBytes path : StateM Machine (Except FileFault ByteArray)))
      fun disk => .ok (disk.read path) := fun _ => rfl

theorem reads_isDirectory (path : String) :
    Reads (liftM (FileAccess.isDirectory path : StateM Machine Bool))
      fun disk => .ok (disk.isDirectory path) := fun _ => rfl

theorem reads_filesUnder (path : String) :
    Reads (liftM (FileAccess.filesUnder path : StateM Machine (List String)))
      fun disk => .ok (disk.filesUnder path) := fun _ => rfl

theorem reads_isPresent (path : String) :
    Reads (liftM (FileAccess.isPresent path : StateM Machine Bool))
      fun disk => .ok (disk.isPresent path) := fun _ => rfl

theorem Reads.bind {x : MachineM α} {f : α → MachineM β} {u : Disk → Except RunFault α}
    {v : α → Disk → Except RunFault β} (hx : Reads x u) (hf : ∀ a, Reads (f a) (v a)) :
    Reads (x >>= f) fun disk => u disk >>= fun a => v a disk := by
  intro machine
  have hrun := hx machine
  dsimp only
  cases hu : u machine.disk with
  | error fault =>
    rw [hu] at hrun
    exact run_bind_error hrun
  | ok a =>
    rw [hu] at hrun
    rw [run_bind_ok hrun]
    exact hf a machine

theorem Reads.mapM {f : α → MachineM β} {g : α → Disk → Except RunFault β}
    (hf : ∀ x, Reads (f x) (g x)) (xs : List α) :
    Reads (xs.mapM f) fun disk => xs.mapM fun x => g x disk := by
  induction xs with
  | nil => exact reads_pure []
  | cons x xs ih =>
    simp only [List.mapM_cons]
    exact (hf x).bind fun y => ih.bind fun ys => reads_pure (y :: ys)

/-! ## Leaving the disk alone -/

/-- The computation does nothing to the disk, whether it fails or not. -/
def KeepsDisk (x : MachineM α) : Prop :=
  ∀ machine : Machine, (x.run.run machine).2.disk = machine.disk

theorem Reads.keepsDisk {x : MachineM α} {value : Disk → Except RunFault α} (h : Reads x value) :
    KeepsDisk x := fun machine => by rw [h machine]

theorem keepsDisk_print (text : String) :
    KeepsDisk (liftM (FileAccess.print text : StateM Machine Unit)) := fun _ => rfl

theorem KeepsDisk.bind {x : MachineM α} {f : α → MachineM β} (hx : KeepsDisk x)
    (hf : ∀ a, KeepsDisk (f a)) : KeepsDisk (x >>= f) := by
  intro machine
  have hstay := hx machine
  rcases hrun : x.run.run machine with ⟨fault | a, next⟩
  · rw [hrun] at hstay
    rw [run_bind_error hrun, hstay]
  · rw [hrun] at hstay
    rw [run_bind_ok hrun, hf a next, hstay]

theorem KeepsDisk.forM {f : α → MachineM Unit} (hf : ∀ x, KeepsDisk (f x)) (xs : List α) :
    KeepsDisk (xs.forM f) := by
  induction xs with
  | nil => exact (reads_pure ()).keepsDisk
  | cons x xs ih => exact (hf x).bind fun _ => ih

end MachineM

open MachineM

/-! ## Loading -/

def Disk.loadSet (disk : Disk) (path : String) : Except RunFault (List File) :=
  match disk.read path with
  | .error cause => .error (.unreadableSet path cause)
  | .ok content =>
    match File.decodeSet content.data.toList with
    | some files => .ok files
    | none => .error (.undecodableSet path)

theorem Disk.loadSet_eq_ok_iff {disk : Disk} {path : String} {files : List File} :
    disk.loadSet path = .ok files ↔
      ∃ content, disk.read path = .ok content ∧
        File.decodeSet content.data.toList = some files := by
  unfold Disk.loadSet
  cases disk.read path with
  | error cause => simp
  | ok content =>
    simp only [Except.ok.injEq, exists_eq_left']
    cases File.decodeSet content.data.toList <;> simp

namespace Invocation

def setPathsOn (invocation : Invocation) (disk : Disk) : Except RunFault (List String) :=
  match invocation.descriptorDir with
  | some directory =>
    if disk.isDirectory directory then
      .ok (invocation.descriptorSets ++ (disk.filesUnder directory).filter Path.isDescriptorSet)
    else .error (.notADirectory directory)
  | none => .ok invocation.descriptorSets

def loadFrom (invocation : Invocation) (disk : Disk) : Except RunFault (List File) := do
  let sets ← (← invocation.setPathsOn disk).mapM disk.loadSet
  .ok (File.firstOfPath [] sets.flatten)

theorem reads_setPaths (invocation : Invocation) :
    Reads invocation.setPaths invocation.setPathsOn := by
  intro machine
  unfold setPaths setPathsOn
  cases invocation.descriptorDir with
  | none => rfl
  | some directory =>
    dsimp only
    rw [run_bind_ok (reads_isDirectory directory machine)]
    cases machine.disk.isDirectory directory with
    | true =>
      rw [if_pos rfl, if_pos rfl]
      exact run_bind_ok (reads_filesUnder directory machine)
    | false => rfl

theorem reads_loadSet (path : String) : Reads (loadSet path) fun disk => disk.loadSet path := by
  intro machine
  show _ = (machine.disk.loadSet path, machine)
  unfold loadSet Disk.loadSet
  rw [run_bind_ok (reads_readBytes path machine)]
  cases machine.disk.read path with
  | error cause => rfl
  | ok content =>
    dsimp only
    cases File.decodeSet content.data.toList with
    | none => rfl
    | some files => rfl

theorem reads_load (invocation : Invocation) : Reads invocation.load invocation.loadFrom :=
  (reads_setPaths invocation).bind fun paths =>
    (Reads.mapM reads_loadSet paths).bind fun _ => reads_pure _

/-- The paths that a run asks for among its files. -/
def request (invocation : Invocation) (files : List File) : List String :=
  if invocation.files.isEmpty then files.map (·.path) else invocation.files

theorem outputs_eq_ok_iff {invocation : Invocation} {files : List File} {outputs : List Output} :
    invocation.outputs files = .ok outputs ↔
      files ≠ [] ∧ ∃ settings, Settings.ofParameter invocation.parameter = .ok settings ∧
        generate settings files (invocation.request files) = .ok outputs := by
  cases files with
  | nil =>
    simp only [ne_eq, not_true_eq_false, false_and, iff_false]
    intro h
    cases h
  | cons file rest =>
    unfold Invocation.outputs
    rw [List.isEmpty_cons]
    cases Settings.ofParameter invocation.parameter with
    | error fault => simp [bind, Except.bind]
    | ok settings =>
      simp only [bind, Except.bind, Bool.false_eq_true, if_false]
      cases h : generate settings (file :: rest) (invocation.request (file :: rest)) <;>
        simp_all [request]

/-- What a run on a machine generates, before anything is delivered: declaration
files, or the fault of loading, of the parameter or of generation. -/
def generated (invocation : Invocation) (machine : Machine) : Except RunFault (List Output) :=
  ((do invocation.outputs (← invocation.load) : MachineM (List Output)).run.run machine).1

theorem reads_generated (invocation : Invocation) :
    Reads (do invocation.outputs (← invocation.load) : MachineM (List Output))
      fun disk => invocation.loadFrom disk >>= invocation.outputs :=
  (reads_load invocation).bind fun files => reads_lift (invocation.outputs files)

theorem generated_eq (invocation : Invocation) (machine : Machine) :
    invocation.generated machine = invocation.loadFrom machine.disk >>= invocation.outputs := by
  unfold generated
  rw [reads_generated]

theorem generated_eq_ok_iff {invocation : Invocation} {machine : Machine}
    {outputs : List Output} :
    invocation.generated machine = .ok outputs ↔
      ∃ files, invocation.loadFrom machine.disk = .ok files ∧
        invocation.outputs files = .ok outputs := by
  rw [generated_eq, bind_eq_ok_iff]

/-- A run delivers what it generates. -/
theorem runOn_eq (invocation : Invocation) (machine : Machine) :
    invocation.runOn machine =
      match invocation.generated machine with
      | .error fault => (.error fault, machine)
      | .ok outputs => (invocation.deliver outputs : MachineM Unit).run.run machine := by
  have hassoc : (invocation.run : MachineM Unit) =
      ((do invocation.outputs (← invocation.load) : MachineM (List Output)) >>=
        fun outputs => invocation.deliver outputs) := by
    unfold run
    rw [bind_assoc]
  unfold runOn
  rw [hassoc]
  have hrun : _ = (invocation.loadFrom machine.disk >>= invocation.outputs, machine) :=
    reads_generated invocation machine
  rw [generated_eq]
  cases hgenerated : invocation.loadFrom machine.disk >>= invocation.outputs with
  | error fault =>
    rw [hgenerated] at hrun
    exact run_bind_error hrun
  | ok outputs =>
    rw [hgenerated] at hrun
    exact run_bind_ok hrun

/-! ## Previews and comparisons -/

theorem keepsDisk_previewOutput (contents : Bool) (path content : String) :
    KeepsDisk (previewOutput contents path content : MachineM Unit) := by
  unfold previewOutput
  refine (keepsDisk_print _).bind fun _ => ?_
  cases contents with
  | true => exact keepsDisk_print _
  | false => exact (reads_pure ()).keepsDisk

def stalenessOn (disk : Disk) (path content : String) : Option String :=
  match (disk.read path).toOption.bind String.fromUTF8? with
  | some text => if text = content then none else some (path ++ " (differs)")
  | none => some (path ++ " (missing)")

theorem reads_staleness (path content : String) :
    Reads (staleness path content) fun disk => .ok (stalenessOn disk path content) := by
  intro machine
  show _ = (Except.ok (stalenessOn machine.disk path content), machine)
  unfold staleness stalenessOn
  rw [run_bind_ok (reads_readBytes path machine)]
  cases (machine.disk.read path).toOption.bind String.fromUTF8? with
  | none => rfl
  | some text => rfl

theorem reads_stale (invocation : Invocation) (outputs : List Output) :
    Reads (outputs.mapM fun output => do
        staleness (← invocation.outputPath output) output.content : MachineM (List (Option String)))
      fun disk => outputs.mapM fun output =>
        invocation.outputPath output >>= fun path => .ok (stalenessOn disk path output.content) :=
  Reads.mapM (fun output => (reads_lift (invocation.outputPath output)).bind fun path =>
    reads_staleness path output.content) outputs

theorem keepsDisk_compareAll (invocation : Invocation) (outputs : List Output) :
    KeepsDisk (invocation.compareAll outputs : MachineM Unit) := by
  unfold compareAll
  refine (reads_stale invocation outputs).keepsDisk.bind fun stale => ?_
  split
  · exact keepsDisk_print _
  · exact (reads_throw _).keepsDisk

/-- Unless files are written, delivery does nothing to the disk. -/
theorem keepsDisk_deliver {invocation : Invocation}
    (h : ∀ overwrite, invocation.mode ≠ .write overwrite) (outputs : List Output) :
    KeepsDisk (invocation.deliver outputs : MachineM Unit) := by
  unfold deliver
  cases hmode : invocation.mode with
  | write overwrite => exact absurd hmode (h overwrite)
  | preview contents =>
    refine KeepsDisk.forM (fun output => ?_) outputs
    exact (reads_lift _).keepsDisk.bind fun path => keepsDisk_previewOutput contents path _
  | compare => exact keepsDisk_compareAll invocation outputs

/-! ## Writing one file -/

end Invocation

/-- A file was written at a path: the directories above it were made, and the path
led to `place`, where no directory was, and nothing at all unless files may be
overwritten. -/
inductive Disk.Writes (overwrite : Bool) (path : String) (content : ByteArray) :
    Disk → String → Disk → Prop
  | intro {before mid : Disk} {place : String} :
      before.makePath (Path.parent path) = (.ok (), mid) → mid.locate path = .ok place →
      mid.get? place ≠ some .directory → (overwrite = false → mid.get? place = none) →
      Disk.Writes overwrite path content before place (mid.put place (.file content))

namespace Invocation

theorem run_writeOutput (overwrite : Bool) (path content : String) (machine : Machine) :
    (writeOutput overwrite path content : MachineM Unit).run.run machine =
      match machine.disk.makePath (Path.parent path) with
      | (.error cause, disk) =>
        (.error (.directoryFailed (Path.parent path) cause), { machine with disk := disk })
      | (.ok (), disk) =>
        if !overwrite && disk.isPresent path then
          (.error (.alreadyExists path), { machine with disk := disk })
        else
          match disk.write path content.toUTF8 with
          | .error cause => (.error (.fileFailed path cause), { machine with disk := disk })
          | .ok after =>
            (.ok (),
              { disk := after, printed := machine.printed ++ ("Wrote " ++ path ++ "\n") }) := by
  unfold writeOutput
  rcases hmade : machine.disk.makePath (Path.parent path) with ⟨cause | ⟨⟩, disk⟩
  · have hdirectories := run_makeDirectories (Path.parent path) machine
    rw [hmade] at hdirectories
    rw [run_bind_ok hdirectories]
    rfl
  · have hdirectories := run_makeDirectories (Path.parent path) machine
    rw [hmade] at hdirectories
    rw [run_bind_ok hdirectories]
    dsimp only
    rw [run_bind_ok (reads_isPresent path _)]
    dsimp only
    split
    · rfl
    · have hwrite := run_writeText path content { machine with disk := disk }
      dsimp only at hwrite
      cases hresult : disk.write path content.toUTF8 with
      | error cause =>
        rw [hresult] at hwrite
        rw [run_bind_ok hwrite]
        rfl
      | ok after =>
        rw [hresult] at hwrite
        rw [run_bind_ok hwrite]
        rfl

/-- **All that writing one file can do.** It succeeds, the file is written and the
path is printed; or it fails, and at most directories were made. -/
theorem writeOutput_cases (overwrite : Bool) (path content : String) (machine : Machine) :
    (∃ place after, Disk.Writes overwrite path content.toUTF8 machine.disk place after ∧
      (writeOutput overwrite path content : MachineM Unit).run.run machine =
        (.ok (), { disk := after, printed := machine.printed ++ ("Wrote " ++ path ++ "\n") })) ∨
    ∃ fault disk, machine.disk.Widens disk ∧
      (writeOutput overwrite path content : MachineM Unit).run.run machine =
        (.error fault, { machine with disk := disk }) := by
  have hwidens := machine.disk.widens_makePath (Path.parent path)
  rw [run_writeOutput]
  rcases hmade : machine.disk.makePath (Path.parent path) with ⟨cause | ⟨⟩, disk⟩
  · rw [hmade] at hwidens
    exact .inr ⟨_, disk, hwidens, rfl⟩
  · rw [hmade] at hwidens
    dsimp only
    by_cases hpresent : (!overwrite && disk.isPresent path) = true
    · rw [if_pos hpresent]
      exact .inr ⟨_, disk, hwidens, rfl⟩
    rw [if_neg hpresent]
    cases hwrite : disk.write path content.toUTF8 with
    | error cause => exact .inr ⟨_, disk, hwidens, rfl⟩
    | ok after =>
      obtain ⟨place, hplace, hdirectory, rfl⟩ := Disk.write_eq_ok_iff.1 hwrite
      refine .inl ⟨place, _, .intro hmade hplace hdirectory fun hoverwrite => ?_, rfl⟩
      cases hget : disk.get? place with
      | none => rfl
      | some entry =>
        have := Disk.isPresent_iff.2 ⟨place, entry, hplace, hget⟩
        simp [hoverwrite, this] at hpresent

end Invocation
end ProtoTypings
