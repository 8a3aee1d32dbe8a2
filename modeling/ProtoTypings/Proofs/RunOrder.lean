import ProtoTypings.Proofs.ByteOrder
import ProtoTypings.Proofs.EndingRuns
import ProtoTypings.Proofs.SettingsIndependence
/-!
# Runs depend on sets

A run gets a list of files and a list of requested paths. Neither order counts,
and neither do repetitions in the request. What comes out is in the order of
paths, and each declaration file is the one that its path gets alone.

**Answers.** `Catalog.Answers` says what a run over a catalog has to answer,
without sorting and without a loop: outputs in strictly ascending order for
exactly the requested paths, or the fault of the first requested path that has
one, where a path without a file comes before everything else. Whether a run ends
at all is a question of its own, which `Generates` answers.

**Results.**
* `requestedPaths_eq_of_mem_iff`: the paths of a request depend on the set of
  requested paths.
* `Catalog.sameTypes_of_perm`, `Catalog.file?_eq_of_perm`: the catalogs of a list
  of files in two orders agree.
* `Catalog.answers_generate`: a run answers as it has to.
* `Catalog.generationEnds_of_perm`: a run ends in all orders or in none.
* `generate_eq_of_perm`: all of it for two orders at once.
-/
namespace ProtoTypings

/-! ## The paths of a request -/

theorem mem_requestedPaths {request : List String} {path : String} :
    path ∈ requestedPaths request ↔ path ∈ request := by
  rw [requestedPaths, List.mem_mergeSort, List.mem_eraseDups]

theorem requestedPaths_nodup (request : List String) : (requestedPaths request).Nodup := by
  rw [requestedPaths, (List.mergeSort_perm _ _).nodup_iff]
  exact nodup_eraseDups request

theorem requestedPaths_pairwise_le (request : List String) :
    (requestedPaths request).Pairwise (· ≤ ·) := by
  have hsorted : (requestedPaths request).Pairwise fun s t => decide (s ≤ t) = true := by
    refine List.pairwise_mergeSort ?_ ?_ request.eraseDups
    · intro s t u hst htu
      exact decide_eq_true (le_trans (of_decide_eq_true hst) (of_decide_eq_true htu))
    · intro s t
      simpa using le_total s t
  exact hsorted.imp of_decide_eq_true

/-- The paths of a request are in strictly ascending order. -/
theorem requestedPaths_pairwise_lt (request : List String) :
    (requestedPaths request).Pairwise (· < ·) := by
  have hne : (requestedPaths request).Pairwise (· ≠ ·) := requestedPaths_nodup request
  exact ((requestedPaths_pairwise_le request).and hne).imp fun h => lt_of_le_of_ne h.1 h.2

theorem requestedPaths_eq_of_mem_iff {request request' : List String}
    (h : ∀ path, path ∈ request ↔ path ∈ request') :
    requestedPaths request = requestedPaths request' := by
  have hperm : (requestedPaths request).Perm (requestedPaths request') := by
    rw [List.perm_ext_iff_of_nodup (requestedPaths_nodup _) (requestedPaths_nodup _)]
    intro path
    rw [mem_requestedPaths, mem_requestedPaths, h]
  exact hperm.eq_of_pairwise (fun _ _ _ _ => le_antisymm) (requestedPaths_pairwise_le _)
    (requestedPaths_pairwise_le _)

/-- A request in strictly ascending order is taken as it is. -/
theorem requestedPaths_of_pairwise {paths : List String} (h : paths.Pairwise (· < ·)) :
    requestedPaths paths = paths := by
  have hnodup : paths.Nodup := h.imp fun hlt => ne_of_lt hlt
  have hperm : (requestedPaths paths).Perm paths := by
    rw [List.perm_ext_iff_of_nodup (requestedPaths_nodup paths) hnodup]
    exact fun _ => mem_requestedPaths
  exact hperm.eq_of_pairwise (fun _ _ _ _ => le_antisymm) (requestedPaths_pairwise_le paths)
    (h.imp le_of_lt)

/-- Among the requested paths with a property, the first one in the order of
bytes. -/
structure FirstOf (request : List String) (motive : String → Prop) (path : String) : Prop where
  mem : path ∈ request
  holds : motive path
  le : ∀ other ∈ request, motive other → Text.bytes path ≤ Text.bytes other

theorem firstOf_of_split {request before after : List String} {path : String}
    {motive : String → Prop} (hsplit : requestedPaths request = before ++ path :: after)
    (hbefore : ∀ other ∈ before, ¬ motive other) (hpath : motive path) :
    FirstOf request motive path := by
  have hsorted := requestedPaths_pairwise_lt request
  rw [hsplit, List.pairwise_append, List.pairwise_cons] at hsorted
  refine ⟨mem_requestedPaths.1 (by simp [hsplit]), hpath, fun other hother hmotive => ?_⟩
  rw [← mem_requestedPaths, hsplit, List.mem_append, List.mem_cons] at hother
  rw [Text.bytes_le_iff]
  obtain hother | rfl | hother := hother
  · exact absurd hmotive (hbefore other hother)
  · exact le_refl _
  · exact le_of_lt (hsorted.2.1.1 other hother)

/-! ## Faults of a list -/

section lists
variable {ε α β : Type} {f : α → Except ε β}

theorem bind_eq_ok_iff {x : Except ε α} {b : β} :
    x >>= f = .ok b ↔ ∃ a, x = .ok a ∧ f a = .ok b := by
  cases x <;> simp [bind, Except.bind]

theorem mapM_eq_ok_iff {xs : List α} {ys : List β} :
    xs.mapM f = .ok ys ↔ List.Forall₂ (fun x y => f x = .ok y) xs ys := by
  induction xs generalizing ys with
  | nil =>
    rw [List.mapM_nil, List.forall₂_nil_left_iff]
    exact ⟨fun h => (Except.ok.inj h).symm, fun h => congrArg Except.ok h.symm⟩
  | cons x xs ih =>
    rw [List.mapM_cons, List.forall₂_cons_left_iff]
    constructor
    · intro h
      cases hx : f x with
      | error fault =>
        rw [hx] at h
        cases h
      | ok y =>
        cases hxs : xs.mapM f with
        | error fault =>
          rw [hx, hxs] at h
          cases h
        | ok ys' =>
          rw [hx, hxs] at h
          cases h
          exact ⟨y, ys', rfl, ih.1 hxs, rfl⟩
    · rintro ⟨y, ys', hx, hxs, rfl⟩
      rw [hx, ih.2 hxs]
      rfl

/-- The fault of a list is that of the first element that has one. -/
theorem exists_split_of_mapM_eq_error {xs : List α} {fault : ε} (h : xs.mapM f = .error fault) :
    ∃ before x after, xs = before ++ x :: after ∧ (∀ y ∈ before, ∃ b, f y = .ok b) ∧
      f x = .error fault := by
  induction xs with
  | nil => cases h
  | cons x xs ih =>
    rw [List.mapM_cons] at h
    cases hx : f x with
    | error fault' =>
      rw [hx] at h
      cases h
      exact ⟨[], x, xs, rfl, List.forall_mem_nil _, hx⟩
    | ok y =>
      cases hxs : xs.mapM f with
      | ok ys =>
        rw [hx, hxs] at h
        cases h
      | error fault' =>
        rw [hx, hxs] at h
        cases h
        obtain ⟨before, z, after, rfl, hbefore, hz⟩ := ih hxs
        exact ⟨x :: before, z, after, rfl, List.forall_mem_cons.2 ⟨⟨y, hx⟩, hbefore⟩, hz⟩

end lists

namespace Catalog

theorem forM_requireFile (catalog : Catalog) (paths : List String) :
    (paths.forM fun path => discard (catalog.requireFile path)) =
      match paths.find? (fun path => (catalog.file? path).isNone) with
      | some path => .error (.unknownFile path)
      | none => .ok () := by
  induction paths with
  | nil => rfl
  | cons path rest ih =>
    rw [List.forM_eq_forM] at ih ⊢
    rw [List.forM_cons, List.find?_cons, ih, requireFile]
    cases catalog.file? path with
    | none => rfl
    | some file => rfl

/-! ## What a run answers -/

/-- What a run over the catalog has to answer to a request. -/
inductive Answers (catalog : Catalog) (settings : Settings) (request : List String) :
    Except Fault (List Output) → Prop
  /-- The declaration files of all requested paths. -/
  | outputs {outputs : List Output} :
      (outputs.map (·.source)).Pairwise (fun s t => Text.bytes s < Text.bytes t) →
      (∀ path, path ∈ outputs.map (·.source) ↔ path ∈ request) →
      (∀ output ∈ outputs, catalog.output settings output.source = .ok output) →
      Answers catalog settings request (.ok outputs)
  /-- A requested path has no file. -/
  | missing {path : String} :
      FirstOf request (fun path => catalog.file? path = none) path →
      Answers catalog settings request (.error (.unknownFile path))
  /-- All files are there and one of them has a fault. -/
  | failing {path : String} {fault : Fault} :
      (∀ path ∈ request, ∃ file, catalog.file? path = some file) →
      FirstOf request (fun path => ∃ fault, catalog.output settings path = .error fault) path →
      catalog.output settings path = .error fault →
      Answers catalog settings request (.error fault)

theorem typings_of_output {catalog : Catalog} {settings : Settings} {path : String}
    {output : Output} (h : catalog.output settings path = .ok output) :
    ∃ t, catalog.typings settings path = .ok t ∧
      output = { source := path, name := Output.nameFor path, content := t.render settings } := by
  rw [output_eq_map] at h
  cases htypings : catalog.typings settings path with
  | error fault =>
    rw [htypings] at h
    cases h
  | ok t =>
    rw [htypings] at h
    cases h
    exact ⟨t, rfl, rfl⟩

theorem source_of_output {catalog : Catalog} {settings : Settings} {path : String}
    {output : Output} (h : catalog.output settings path = .ok output) : output.source = path := by
  obtain ⟨t, -, rfl⟩ := typings_of_output h
  rfl

theorem exists_file_of_output {catalog : Catalog} {settings : Settings} {path : String}
    {output : Output} (h : catalog.output settings path = .ok output) :
    ∃ file, catalog.file? path = some file := by
  obtain ⟨t, ht, -⟩ := typings_of_output h
  obtain ⟨file, _, _, _, hfile, -⟩ := typings_eq_ok ht
  exact ⟨file, hfile⟩

theorem answers_outputs {catalog : Catalog} {settings : Settings} {request : List String}
    {outputs : List Output}
    (h : List.Forall₂ (fun path output => catalog.output settings path = .ok output)
      (requestedPaths request) outputs) : catalog.Answers settings request (.ok outputs) := by
  have hsources : outputs.map (·.source) = requestedPaths request := by
    rw [← List.map_id (requestedPaths request)]
    exact (map_eq_map_of_forall₂ h fun _ _ houtput => (source_of_output houtput).symm).symm
  refine .outputs ?_ ?_ ?_
  · rw [hsources]
    exact (requestedPaths_pairwise_lt request).imp Text.bytes_lt_iff.2
  · intro path
    rw [hsources, mem_requestedPaths]
  · intro output houtput
    obtain ⟨path, -, hpath⟩ := exists_left_of_forall₂ h output houtput
    rw [source_of_output hpath]
    exact hpath

theorem generate_of_ofFiles {files : List File} {catalog : Catalog}
    (h : ofFiles files = .ok catalog) (settings : Settings) (request : List String) :
    generate settings files request =
      (do (requestedPaths request).forM fun path => discard (catalog.requireFile path)
          (requestedPaths request).mapM (catalog.output settings)) := by
  rw [generate, h]
  show (do (requestedPaths request).forM fun path => discard (catalog.requireFile path)
           ((requestedPaths request).map (catalog.output settings)).mapM id) = _
  rw [List.mapM_map]
  rfl

/-- **A run answers as it has to.** -/
theorem answers_generate {files : List File} {catalog : Catalog}
    (h : ofFiles files = .ok catalog) (settings : Settings) (request : List String) :
    catalog.Answers settings request (generate settings files request) := by
  rw [generate_of_ofFiles h, forM_requireFile]
  cases hmissing : (requestedPaths request).find? (fun path => (catalog.file? path).isNone) with
  | some path =>
    obtain ⟨hnone, before, after, hsplit, hbefore⟩ := List.find?_eq_some_iff_append.1 hmissing
    refine .missing (firstOf_of_split hsplit (fun other hother hnone => ?_) (by simpa using hnone))
    simpa [hnone] using hbefore other hother
  | none =>
    have hfiles : ∀ path ∈ request, ∃ file, catalog.file? path = some file := by
      intro path hpath
      have := List.find?_eq_none.1 hmissing path (mem_requestedPaths.2 hpath)
      simpa [Option.ne_none_iff_exists'] using this
    show catalog.Answers settings request ((requestedPaths request).mapM (catalog.output settings))
    cases hrun : (requestedPaths request).mapM (catalog.output settings) with
    | ok outputs => exact answers_outputs (mapM_eq_ok_iff.1 hrun)
    | error fault =>
      obtain ⟨before, path, after, hsplit, hbefore, hpath⟩ := exists_split_of_mapM_eq_error hrun
      refine .failing hfiles (firstOf_of_split hsplit ?_ ⟨fault, hpath⟩) hpath
      rintro other hother ⟨fault', hfault'⟩
      obtain ⟨output, houtput⟩ := hbefore other hother
      rw [houtput] at hfault'
      cases hfault'

/-- A run succeeds exactly with the declaration files of its paths. -/
theorem generate_eq_ok_iff {settings : Settings} {files : List File} {request : List String}
    {outputs : List Output} :
    generate settings files request = .ok outputs ↔
      ∃ catalog, ofFiles files = .ok catalog ∧
        List.Forall₂ (fun path output => catalog.output settings path = .ok output)
          (requestedPaths request) outputs := by
  constructor
  · intro h
    cases hfiles : ofFiles files with
    | error fault =>
      rw [generate, hfiles] at h
      cases h
    | ok catalog =>
      rw [generate_of_ofFiles hfiles, forM_requireFile] at h
      refine ⟨catalog, rfl, ?_⟩
      split at h
      · cases h
      · exact mapM_eq_ok_iff.1 h
  · rintro ⟨catalog, hfiles, houtputs⟩
    have hmissing : (requestedPaths request).find? (fun path => (catalog.file? path).isNone) =
        none := by
      rw [List.find?_eq_none]
      intro path hpath
      obtain ⟨output, -, houtput⟩ := exists_left_of_forall₂ houtputs.flip path hpath
      obtain ⟨file, hfile⟩ := exists_file_of_output houtput
      simp [hfile]
    rw [generate_of_ofFiles hfiles, forM_requireFile, hmissing]
    exact mapM_eq_ok_iff.2 houtputs

/-! ## The order of files -/

/-- In lists with different keys, a key is found in either order. -/
theorem find?_eq_of_perm {α : Type} {xs ys : List α} {key : α → String} (h : xs.Perm ys)
    (hnodup : (xs.map key).Nodup) (k : String) :
    ys.find? (key · = k) = xs.find? (key · = k) := by
  cases hx : xs.find? (key · = k) with
  | none =>
    rw [List.find?_eq_none] at hx ⊢
    exact fun y hy => hx y (h.mem_iff.2 hy)
  | some x =>
    have hkey : key x = k := by simpa using List.find?_some hx
    have hmem : x ∈ ys := h.mem_iff.1 (List.mem_of_find?_eq_some hx)
    rw [← hkey]
    exact find?_of_mem ((h.map key).nodup_iff.1 hnodup) hmem

section perm
variable {files files' : List File} {catalog catalog' : Catalog} (hfiles : files.Perm files')
include hfiles

theorem exists_ofFiles_of_perm (h : ofFiles files = .ok catalog) :
    ∃ catalog', ofFiles files' = .ok catalog' := by
  obtain ⟨himports, hnames, -⟩ := ofFiles_eq_ok_iff.1 h
  refine ⟨_, ofFiles_eq_ok_iff.2 ⟨fun file hfile d hd => ?_, ?_, rfl⟩⟩
  · obtain ⟨f, hf, hpath⟩ := himports file (hfiles.mem_iff.2 hfile) d hd
    exact ⟨f, hfiles.mem_iff.1 hf, hpath⟩
  · exact ((hfiles.flatMap_right File.types).map _).nodup_iff.1 hnames

variable (h : ofFiles files = .ok catalog) (h' : ofFiles files' = .ok catalog')
include h h'

theorem sameTypes_of_perm : catalog.SameTypes catalog' := by
  intro name
  have htypes : catalog.types.Perm catalog'.types := by
    rw [types_of_ofFiles h, types_of_ofFiles h']
    exact hfiles.flatMap_right File.types
  exact find?_eq_of_perm htypes (fullNames_nodup h) name

theorem file?_eq_of_perm (hpaths : (files.map File.path).Nodup) (path : String) :
    catalog'.file? path = catalog.file? path := by
  rw [file?, file?, files_of_ofFiles h, files_of_ofFiles h']
  exact find?_eq_of_perm hfiles hpaths path

/-- The declaration file of a path does not depend on the order of files. -/
theorem output_eq_of_perm (hpaths : (files.map File.path).Nodup) (settings : Settings)
    (path : String) : catalog'.output settings path = catalog.output settings path := by
  rw [output_eq_map, output_eq_map]
  obtain ⟨fault, hfault, hfault'⟩ | ⟨file, t, t', -, ht, ht', hcounterpart⟩ :=
    (sameTypes_of_perm hfiles h h').typings_lockstep path
      (file?_eq_of_perm hfiles h h' hpaths path) settings settings
  · rw [hfault, hfault']
  · rw [ht, ht', hcounterpart.eq (.refl settings)]

/-- The result of a run does not depend on the order of files, nor on that of a request. -/
theorem generate_eq_of_ofFiles (hpaths : (files.map File.path).Nodup)
    {request request' : List String} (hrequest : ∀ path, path ∈ request ↔ path ∈ request')
    (settings : Settings) :
    generate settings files request = generate settings files' request' := by
  have hrequire : catalog'.requireFile = catalog.requireFile := by
    funext path
    rw [requireFile, requireFile, file?_eq_of_perm hfiles h h' hpaths path]
  have houtput : catalog'.output settings = catalog.output settings :=
    funext (output_eq_of_perm hfiles h h' hpaths settings)
  rw [generate_of_ofFiles h, generate_of_ofFiles h', hrequire, houtput,
    requestedPaths_eq_of_mem_iff hrequest]

end perm

/-- Whether a run ends does not depend on the order of files, nor on that of a request. -/
theorem generationEnds_of_perm {files files' : List File} {request request' : List String}
    (hpaths : (files.map File.path).Nodup) (hfiles : files.Perm files')
    (hrequest : ∀ path, path ∈ request ↔ path ∈ request') {settings : Settings}
    (hends : GenerationEnds settings files request) : GenerationEnds settings files' request' := by
  intro catalog' h' hpresent path hpath
  obtain ⟨catalog, h⟩ := exists_ofFiles_of_perm hfiles.symm h'
  have hfile := file?_eq_of_perm hfiles h h' hpaths
  refine (sameTypes_of_perm hfiles h h').ends (hfile path)
    (hends catalog h (fun other hother => ?_) path ((hrequest path).2 hpath))
  rw [← hfile other]
  exact hpresent other ((hrequest other).1 hother)

end Catalog

/-- **Runs depend on sets.** For files with different paths, in any two orders,
and for requests of the same paths: the catalog is made for both orders or for
none. If it is made, both runs end alike, and as they have to, unless neither ends,
which takes a message without a name in a file without a package. -/
theorem generate_eq_of_perm {files files' : List File} {request request' : List String}
    (hpaths : (files.map File.path).Nodup) (hfiles : files.Perm files')
    (hrequest : ∀ path, path ∈ request ↔ path ∈ request') (settings : Settings) :
    (∃ catalog catalog', Catalog.ofFiles files = .ok catalog ∧
      Catalog.ofFiles files' = .ok catalog' ∧
      ((∃ result, Generates settings files request result ∧
          Generates settings files' request' result ∧ catalog.Answers settings request result) ∨
        (∀ result, ¬ Generates settings files request result) ∧
          (∀ result, ¬ Generates settings files' request' result) ∧
          ∃ file ∈ files, file.packageName = "" ∧ ∃ m ∈ file.messages, m.name = "")) ∨
    ∃ fault fault', Catalog.ofFiles files = .error fault ∧ Catalog.ofFiles files' = .error fault' ∧
      Generates settings files request (.error fault) ∧
      Generates settings files' request' (.error fault') := by
  cases h : Catalog.ofFiles files with
  | error fault =>
    cases h' : Catalog.ofFiles files' with
    | error fault' =>
      exact .inr ⟨fault, fault', rfl, rfl, generates_of_fault h _, generates_of_fault h' _⟩
    | ok catalog' =>
      obtain ⟨catalog, hcatalog⟩ := Catalog.exists_ofFiles_of_perm hfiles.symm h'
      rw [h] at hcatalog
      cases hcatalog
  | ok catalog =>
    obtain ⟨catalog', h'⟩ := Catalog.exists_ofFiles_of_perm hfiles h
    refine .inl ⟨catalog, catalog', rfl, h', ?_⟩
    by_cases hends : GenerationEnds settings files request
    · refine .inl ⟨_, ⟨rfl, hends⟩, ⟨?_, ?_⟩, Catalog.answers_generate h settings request⟩
      · exact (Catalog.generate_eq_of_ofFiles hfiles h h' hpaths hrequest settings).symm
      · exact Catalog.generationEnds_of_perm hpaths hfiles hrequest hends
    · refine .inr ⟨not_generates hends, not_generates fun hends' => hends ?_,
        exists_nameless_of_not_ends hends⟩
      have hpaths' : (files'.map File.path).Nodup := (hfiles.map File.path).nodup_iff.1 hpaths
      exact Catalog.generationEnds_of_perm hpaths' hfiles.symm (fun path => (hrequest path).symm)
        hends'

/-- The sample with its files turned round and a path requested twice: both runs end, with
the same declaration files. -/
theorem generate_eq_of_perm_shop :
    (Sample.files.map File.path).Nodup ∧ Sample.files.Perm Sample.files.reverse ∧
      ∃ outputs, Generates {} Sample.files ["shop.proto", "lib/base.proto", "shop.proto"]
          (.ok outputs) ∧
        Generates {} Sample.files.reverse ["lib/base.proto", "shop.proto"] (.ok outputs) := by
  have hpaths : (Sample.files.map File.path).Nodup := by decide
  have hperm : Sample.files.Perm Sample.files.reverse := (List.reverse_perm _).symm
  have hrequest : ∀ path, path ∈ ["shop.proto", "lib/base.proto", "shop.proto"] ↔
      path ∈ ["lib/base.proto", "shop.proto"] := by simp
  refine ⟨hpaths, hperm, ?_⟩
  obtain ⟨_, _, -, -, ⟨result, hleft, hright, -⟩ | ⟨-, -, hnameless⟩⟩ | ⟨fault, _, hfault, -⟩ :=
    generate_eq_of_perm hpaths hperm hrequest {}
  · obtain ⟨base, hbase⟩ : ∃ output, Sample.catalog.output {} "lib/base.proto" = .ok output :=
      ⟨_, rfl⟩
    obtain ⟨shop, hshop⟩ : ∃ output, Sample.catalog.output {} "shop.proto" = .ok output := ⟨_, rfl⟩
    have hpaths : requestedPaths ["shop.proto", "lib/base.proto", "shop.proto"] =
        ["lib/base.proto", "shop.proto"] := by
      rw [requestedPaths_eq_of_mem_iff hrequest, requestedPaths_of_pairwise (by decide)]
    have hrun : generate {} Sample.files ["shop.proto", "lib/base.proto", "shop.proto"] =
        .ok [base, shop] := by
      refine Catalog.generate_eq_ok_iff.2 ⟨_, Sample.ofFiles_eq, ?_⟩
      rw [hpaths]
      exact .cons hbase (.cons hshop .nil)
    obtain rfl : result = .ok [base, shop] := hleft.generate_eq.symm.trans hrun
    exact ⟨[base, shop], hleft, hright⟩
  · obtain ⟨file, hfile, hpackage, -⟩ := hnameless
    have hpackages : ∀ file ∈ Sample.files, file.packageName ≠ "" := by decide
    exact absurd hpackage (hpackages file hfile)
  · rw [Sample.ofFiles_eq] at hfault
    cases hfault

/-- A message without a name may keep a run from ending: the catalog is made, the requested
file is there, and neither order gives files or a fault. -/
theorem generate_never_ends :
    ([Sample.root, Sample.caller].map File.path).Nodup ∧
      Catalog.ofFiles [Sample.root, Sample.caller] = .ok Sample.endlessCatalog ∧
      Sample.endlessCatalog.file? "s.proto" = some Sample.caller ∧
      ∀ result, ¬ Generates {} [Sample.root, Sample.caller] ["s.proto"] result :=
  ⟨by decide, Sample.ofFiles_endless, rfl, not_generates Sample.not_generationEnds⟩

end ProtoTypings
