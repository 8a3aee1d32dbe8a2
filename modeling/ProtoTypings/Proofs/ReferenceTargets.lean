import ProtoTypings.Proofs.OutlineExact
/-!
# No reference dangles

Every path that a declaration file shows leads to a declaration: in the outline
of the same file, or through an import in the outline of the imported file.

* `Outline.Declares`: an outline has a node of the right kind in the right place.
* `Typings.Names`: the ways in which a file may name a type.
* `Typings.NoDangling`: all paths of properties and operations name the types
  that the references mean.
* `generate_noDangling`: this holds of every requested file.
-/
namespace ProtoTypings

/-- Under the segments of the path of a type there is a node of its kind. -/
def Outline.Declares (outline : Outline) (entry : DeclaredType) : Prop :=
  ∃ item, (Dotted.segments entry.localName, item) ∈ Item.allNodes [] outline.items ∧
    item.kind? = some entry.kind

/-- The ways in which the declarations of the file `path` may name a type. -/
inductive Typings.Names (settings : Settings) (catalog : Catalog) (path : String)
    (typings : Typings) (entry : DeclaredType) : String → Prop
  | inFile : entry.file = path → typings.outline.Declares entry →
      Names settings catalog path typings entry entry.localName
  | inPackage : entry.file = path → typings.outline.Declares entry →
      Names settings catalog path typings entry (entry.package ++ "." ++ entry.localName)
  /-- The name of the import stands for that import alone. -/
  | imported (i : Import) : entry.file ≠ path →
      typings.imports.filter (·.name = i.name) = [i] →
      i.file = entry.file → IsStem entry.file i.specifier → i.used = true →
      (∀ other, catalog.typings settings entry.file = .ok other → other.outline.Declares entry) →
      Names settings catalog path typings entry (i.name ++ "." ++ entry.localName)

/-- The path shown for a type of a method names one type. The method's reference
means no other; where no service has a NUL in its name, it means that one. -/
def Typings.ShowsMethodType (settings : Settings) (catalog : Catalog) (file : File)
    (typings : Typings) (q : Mention) (shown : String) : Prop :=
  ∃ target ∈ catalog.types, typings.Names settings catalog file.path target shown ∧
    (∀ other, q.target? catalog = some other → other = target) ∧
    ((∀ service ∈ file.services, Text.NulFree service.name) → q.target? catalog = some target)

/-- Every path in the typings of a file names what was referred to. -/
structure Typings.NoDangling (settings : Settings) (catalog : Catalog) (file : File)
    (typings : Typings) : Prop where
  properties : ∀ chain name leading properties,
    (chain, .interface name leading properties) ∈ Item.allNodes [] typings.outline.items →
    ∃ owner ∈ file.types, ∃ m, owner.definition = .message m ∧
      Dotted.segments owner.localName = chain ∧
      List.Forall₂
        (fun field property => Option.Rel
          (fun text shown => ∃ target, catalog.resolve? text owner.fullName = some target ∧
            typings.Names settings catalog file.path target shown)
          (field.typeReference? catalog ⟨owner.fullName, file.path⟩) property.type.path?)
        m.fields properties
  operations : ∀ chain typing,
    (chain, .service typing) ∈ Item.allNodes [] typings.outline.items →
    ∃ service ∈ file.services, chain = [service.name ++ "Service"] ∧
      List.Forall₂
        (fun method operation =>
          typings.ShowsMethodType settings catalog file
            ⟨method.input, service.scope file.packageName⟩ operation.type.input ∧
          typings.ShowsMethodType settings catalog file
            ⟨method.output, service.scope file.packageName⟩ operation.type.output)
        service.methods typing.operations

/-! ## Declared types -/

section declares
variable {files : List File} {catalog : Catalog} {settings : Settings}

theorem File.TypingRun.declares {file : File} {r mid last : Resolver} {typing : FileTyping}
    (run : file.TypingRun settings r mid last typing) (hnamed : file.WellNamed)
    (hnodup : (file.types.map (·.fullName)).Nodup) (package : List String) {entry : DeclaredType}
    (hentry : entry ∈ file.types) : (Outline.mk package typing.items).Declares entry :=
  (run.exists_kind_iff hnamed hnodup).1 ⟨entry, hentry, rfl, rfl⟩

/-- A type is declared in every outline made for its file. -/
theorem Catalog.outline_declares (hfiles : Catalog.ofFiles files = .ok catalog)
    (hpaths : (files.map File.path).Nodup) (hnamed : ∀ file ∈ files, file.WellNamed)
    {typings : Typings} {entry : DeclaredType} (hentry : entry ∈ catalog.types)
    (h : catalog.typings settings entry.file = .ok typings) : typings.outline.Declares entry := by
  obtain ⟨file, typing, mid, last, hfile, run, rfl⟩ := Catalog.typings_eq_ok h
  obtain ⟨hmem, -⟩ := Catalog.file?_eq_some hfiles hfile
  exact run.declares (hnamed file hmem) (Catalog.fullNames_nodup_of_file hfiles hmem) _
    ((Catalog.mem_types_iff_of_paths_nodup hfiles hpaths hfile).2 ⟨hentry, rfl⟩)

end declares

/-! ## Settled references -/

theorem Imports.WellFormed.filter_name {imports : Imports} (h : imports.WellFormed) {i : Import}
    (hi : i ∈ imports.list) : imports.list.filter (·.name = i.name) = [i] := by
  have hnodup : imports.list.Nodup := List.Nodup.of_map _ h.names_nodup
  rw [← List.perm_singleton, List.perm_ext_iff_of_nodup (hnodup.filter _) (List.nodup_singleton i)]
  intro j
  rw [List.mem_filter, List.mem_singleton, decide_eq_true_eq]
  constructor
  · intro hj
    exact List.inj_on_of_nodup_map h.names_nodup hj.1 hi hj.2
  · intro hj
    rw [hj]
    exact ⟨hi, rfl⟩

/-- A reference that is settled in a resolver names its type in the typings with
the resolver's imports. -/
theorem Resolver.names_of_refer {r : Resolver} (hr : r.imports.WellFormed) {entry : DeclaredType}
    {scope : String} {reference : Reference} (h : r.refer entry scope = (reference, r))
    {settings : Settings} {catalog : Catalog} {typings : Typings}
    (himports : typings.imports = r.imports.list)
    (hown : entry.file = r.file → typings.outline.Declares entry)
    (hother : ∀ other, catalog.typings settings entry.file = .ok other →
      other.outline.Declares entry) :
    typings.Names settings catalog r.file entry reference.path := by
  obtain ⟨hfile, rfl⟩ | ⟨hfile, i, hi, hifile, hused, rfl⟩ := (refer_eq_self_iff hr).1 h
  · show typings.Names settings catalog r.file entry (r.localPath entry scope)
    rw [localPath]
    split
    · exact .inPackage hfile (hown hfile)
    · exact .inFile hfile (hown hfile)
  · refine .imported i hfile ?_ hifile ?_ hused hother
    · rw [himports]
      exact hr.filter_name hi
    · rw [hr.specifier i hi, hifile]
      exact isStem_stem entry.file

/-! ## Paths that are shown -/

namespace File.TypingRun

variable {settings : Settings} {file : File} {r mid last : Resolver} {typing : FileTyping}
  (run : file.TypingRun settings r mid last typing) (hnamed : file.WellNamed)
  (hnodup : (file.types.map (·.fullName)).Nodup)
include run hnamed hnodup

/-- An interface shows the paths that were remembered for the references of its
message. -/
theorem interface_shown {chain : List String} {name : String} {leading : Option String}
    {properties : List Property}
    (hnode : (chain, .interface name leading properties) ∈ Item.allNodes [] typing.items) :
    ∃ owner ∈ file.types, ∃ m, owner.definition = .message m ∧
      Dotted.segments owner.localName = chain ∧
      List.Forall₂
        (fun field property => Option.Rel
          (fun text shown => mid.pathOf? ⟨text, owner.fullName⟩ = some shown)
          (field.typeReference? r.catalog ⟨owner.fullName, file.path⟩) property.type.path?)
        m.fields properties := by
  obtain ⟨owner, howner, hchain, hshown⟩ := run.exists_shown hnamed hnodup hnode rfl
  cases hdefinition : owner.definition with
  | enum e =>
    simp only [hdefinition] at hshown
    obtain ⟨_, _, hitem⟩ := hshown
    cases hitem
  | message m =>
    simp only [hdefinition] at hshown
    obtain ⟨_, path, results, hitem, hresults⟩ := hshown
    cases hitem
    refine ⟨owner, howner, m, hdefinition, hchain.symm, ?_⟩
    rw [List.forall₂_map_right_iff, ← forall₂_zipIdx_iff]
    exact hresults.imp fun field result hresult => (Field.yielded_property hresult).2.2.1

/-- A service shows the paths that were remembered for the types of its methods. -/
theorem service_shown {chain : List String} {service : ServiceTyping}
    (hnode : (chain, .service service) ∈ Item.allNodes [] typing.items) :
    ∃ source ∈ file.services, chain = [source.name ++ "Service"] ∧
      List.Forall₂
        (fun method operation =>
          last.pathOf? ⟨method.input, source.scope file.packageName⟩ =
            some operation.type.input ∧
          last.pathOf? ⟨method.output, source.scope file.packageName⟩ =
            some operation.type.output)
        source.methods service.operations := by
  obtain ⟨hservice, rfl⟩ := run.mem_services hnamed hnodup hnode
  obtain ⟨source, hsource, hyielded⟩ := exists_left_of_forall₂ run.services service hservice
  obtain ⟨hname, hoperations⟩ := Service.yielded_typing hyielded
  refine ⟨source.1, List.fst_mem_of_mem_zipIdx hsource, by rw [hname], ?_⟩
  rw [← forall₂_zipIdx_iff]
  exact hoperations.imp fun method operation h => (Method.yielded_operation h).2.2.2

end File.TypingRun

/-! ## Typings of one file -/

theorem optionRel_imp {α β : Type} {R S : α → β → Prop} {a : Option α} {b : Option β}
    (h : Option.Rel R a b) (hRS : ∀ x y, R x y → S x y) : Option.Rel S a b := by
  cases h with
  | none => exact .none
  | some h => exact .some (hRS _ _ h)

theorem Resolver.exists_of_pathOf? {r : Resolver} {q : Mention} {path : String}
    (h : r.pathOf? q = some path) :
    ∃ reference, r.known.lookup q.key = some reference ∧ reference.path = path := by
  rw [Resolver.pathOf?] at h
  exact Option.map_eq_some_iff.1 h

theorem File.TypingRun.sound {settings : Settings} {catalog : Catalog} {file : File}
    {path : String} {mid last : Resolver} {typing : FileTyping}
    (run : file.TypingRun settings (Resolver.ofFile catalog path) mid last typing) :
    last.Sound fun _ => True :=
  run.run.sound (Resolver.sound_ofFile _ catalog path) fun _ _ => trivial

theorem Resolver.Extends.pathOf? {r r' : Resolver} (h : r.Extends r') {q : Mention}
    {path : String} (hpath : r.pathOf? q = some path) : r'.pathOf? q = some path := by
  obtain ⟨reference, hknown, rfl⟩ := Resolver.exists_of_pathOf? hpath
  rw [Resolver.pathOf?, h.known _ _ hknown, Option.map_some]

/-- What the resolver remembers after the messages is settled at the end, for the type that was
mentioned. -/
theorem File.TypingRun.refer_of_messages {files : List File} {catalog : Catalog}
    (hfiles : Catalog.ofFiles files = .ok catalog) (hnul : ∀ file ∈ files, file.NulFree)
    {settings : Settings} {file : File} (hfile : file ∈ files) {mid last : Resolver}
    {typing : FileTyping}
    (run : file.TypingRun settings (Resolver.ofFile catalog file.path) mid last typing)
    {q : Mention} {shown : String} (h : mid.pathOf? q = some shown) :
    ∃ target reference, q.target? catalog = some target ∧
      last.refer target q.scope = (reference, last) ∧ reference.path = shown := by
  have hmid : mid.Sound Text.NulFree :=
    run.messageRun.sound (Resolver.sound_ofFile _ catalog file.path)
      (File.nulFree_of_mem_allMentions (hnul file hfile))
  have hcatalog : mid.catalog = catalog := run.messageRun.extends.catalog
  obtain ⟨reference, hknown, rfl⟩ := Resolver.exists_of_pathOf? h
  obtain ⟨target, htarget, hself⟩ :=
    hmid.known_target (hcatalog ▸ Resolver.nulFreeCatalog_of_files hfiles hnul) hknown
  rw [hcatalog] at htarget
  exact ⟨target, reference, htarget,
    run.serviceRun.extends.refer_eq_self hmid.imports run.sound.imports hself, rfl⟩

namespace Catalog

variable {files : List File} {catalog : Catalog} {settings : Settings} {file : File}
  {mid last : Resolver} {typing : FileTyping} {typings : Typings}
  (hfiles : Catalog.ofFiles files = .ok catalog) (hpaths : (files.map File.path).Nodup)
  (hnamed : ∀ file ∈ files, file.WellNamed) (hnul : ∀ file ∈ files, file.NulFree)
  (hfile : file ∈ files) (htypings : catalog.typings settings file.path = .ok typings)
  (run : file.TypingRun settings (Resolver.ofFile catalog file.path) mid last typing)
  (himports : typings.imports = last.imports.list)
include hfiles hpaths hnamed htypings run himports

theorem names_of_refer {entry : DeclaredType} (hentry : entry ∈ catalog.types) {scope : String}
    {reference : Reference} (h : last.refer entry scope = (reference, last)) :
    typings.Names settings catalog file.path entry reference.path := by
  have hlast : last.file = file.path := run.run.extends.file
  rw [← hlast]
  refine Resolver.names_of_refer run.sound.imports h himports (fun hown => ?_) fun other hother =>
    Catalog.outline_declares hfiles hpaths hnamed hentry hother
  rw [hlast] at hown
  exact Catalog.outline_declares hfiles hpaths hnamed hentry (hown ▸ htypings)

include hnul hfile

/-- What the resolver remembers after the messages names what was mentioned. -/
theorem names_of_messages {q : Mention} {shown : String} (h : mid.pathOf? q = some shown) :
    ∃ target, q.target? catalog = some target ∧
      typings.Names settings catalog file.path target shown := by
  obtain ⟨target, reference, htarget, hself, rfl⟩ := run.refer_of_messages hfiles hnul hfile h
  exact ⟨target, htarget, names_of_refer hfiles hpaths hnamed htypings run himports
    (Catalog.mem_of_resolve? htarget) hself⟩

/-- What the resolver remembers at the end, for the type of a method. -/
theorem showsMethodType {q : Mention} {shown : String} (h : last.pathOf? q = some shown) :
    typings.ShowsMethodType settings catalog file q shown := by
  have hlast := run.sound
  have hcatalog : last.catalog = catalog := run.run.extends.catalog
  have hnames : Resolver.NulFreeCatalog last.catalog :=
    hcatalog ▸ Resolver.nulFreeCatalog_of_files hfiles hnul
  obtain ⟨reference, hknown, rfl⟩ := Resolver.exists_of_pathOf? h
  obtain ⟨target, scope, htarget, hunique, hself⟩ := hlast.known_unique hnames hknown
  rw [hcatalog] at htarget hunique
  refine ⟨target, htarget,
    names_of_refer hfiles hpaths hnamed htypings run himports htarget hself, hunique, ?_⟩
  -- with a NUL in the scope of a service, the answer may be that to another mention
  intro hservices
  have hsound : last.Sound Text.NulFree :=
    run.run.sound (Resolver.sound_ofFile _ catalog file.path)
      (File.nulFree_of_mem_mentions (hnul file hfile) hservices)
  obtain ⟨other, hother, -⟩ := hsound.known_target hnames hknown
  rw [hcatalog] at hother
  rw [hother, hunique other hother]

/-- All paths in the typings of a file name what was referred to. -/
theorem noDangling (hitems : typings.outline.items = typing.items) :
    typings.NoDangling settings catalog file := by
  have hnodup := Catalog.fullNames_nodup_of_file hfiles hfile
  constructor
  · intro chain name leading properties hnode
    rw [hitems] at hnode
    obtain ⟨owner, howner, m, hdefinition, hchain, hfields⟩ :=
      run.interface_shown (hnamed file hfile) hnodup hnode
    refine ⟨owner, howner, m, hdefinition, hchain, hfields.imp fun field property h => ?_⟩
    exact optionRel_imp h fun text shown hpath =>
      names_of_messages hfiles hpaths hnamed hnul hfile htypings run himports hpath
  · intro chain service hnode
    rw [hitems] at hnode
    obtain ⟨source, hsource, hchain, hmethods⟩ :=
      run.service_shown (hnamed file hfile) hnodup hnode
    refine ⟨source, hsource, hchain, hmethods.imp fun method operation h => ?_⟩
    exact ⟨showsMethodType hfiles hpaths hnamed hnul hfile htypings run himports h.1,
      showsMethodType hfiles hpaths hnamed hnul hfile htypings run himports h.2⟩

end Catalog

/-! ## All requested files -/

theorem exists_of_mapM_eq_ok {α β ε : Type} {f : α → Except ε β} {xs : List α} {ys : List β}
    (h : xs.mapM f = .ok ys) : ∀ x ∈ xs, ∃ y ∈ ys, f x = .ok y := by
  induction xs generalizing ys with
  | nil => exact List.forall_mem_nil _
  | cons x xs ih =>
    rw [List.mapM_cons] at h
    cases hx : f x with
    | error fault =>
      rw [hx] at h
      cases h
    | ok y =>
      cases hxs : xs.mapM f with
      | error fault =>
        rw [hx, hxs] at h
        cases h
      | ok rest =>
        rw [hx, hxs] at h
        cases h
        refine List.forall_mem_cons.2 ⟨⟨y, List.mem_cons_self, hx⟩, fun x' hx' => ?_⟩
        obtain ⟨y', hy', heq⟩ := ih hxs x' hx'
        exact ⟨y', List.mem_cons_of_mem _ hy', heq⟩

/-- A run that succeeds has typings for every requested file, and their text is
among its outputs. -/
theorem generate_eq_ok {settings : Settings} {files : List File} {request : List String}
    {outputs : List Output} (h : generate settings files request = .ok outputs) :
    ∃ catalog, Catalog.ofFiles files = .ok catalog ∧
      ∀ path ∈ request, ∃ typings, catalog.typings settings path = .ok typings ∧
        { source := path, name := Output.nameFor path, content := typings.render settings } ∈
          outputs := by
  rw [generate] at h
  cases hfiles : Catalog.ofFiles files with
  | error fault =>
    rw [hfiles] at h
    cases h
  | ok catalog =>
    refine ⟨catalog, rfl, fun path hpath => ?_⟩
    have hmem : path ∈ requestedPaths request := by
      rw [requestedPaths, List.mem_mergeSort, List.mem_eraseDups]
      exact hpath
    have houtputs : (requestedPaths request).mapM (catalog.output settings) = .ok outputs := by
      rw [hfiles] at h
      cases hrequire : (requestedPaths request).forM
          fun path => discard (catalog.requireFile path) with
      | error fault => simp [bind, Except.bind, hrequire] at h
      | ok _ => simpa [bind, Except.bind, hrequire] using h
    obtain ⟨output, houtput, heq⟩ := exists_of_mapM_eq_ok houtputs path hmem
    rw [Catalog.output] at heq
    cases htypings : catalog.typings settings path with
    | error fault =>
      rw [htypings] at heq
      cases heq
    | ok typings =>
      rw [htypings] at heq
      cases heq
      exact ⟨typings, rfl, houtput⟩

/-- **No reference dangles.** Let the files have distinct paths, names of types
that can be segments, and no NUL in packages or names of types. Whenever a run
succeeds, every requested file has typings in which each path names the type
that was referred to. -/
theorem generate_noDangling {settings : Settings} {files : List File} {request : List String}
    {outputs : List Output} (hpaths : (files.map File.path).Nodup)
    (hnamed : ∀ file ∈ files, file.WellNamed) (hnul : ∀ file ∈ files, file.NulFree)
    (h : generate settings files request = .ok outputs) {path : String} (hpath : path ∈ request) :
    ∃ catalog, Catalog.ofFiles files = .ok catalog ∧
      ∃ file ∈ files, file.path = path ∧
        ∃ typings, catalog.typings settings path = .ok typings ∧
          { source := path, name := Output.nameFor path, content := typings.render settings } ∈
            outputs ∧
          typings.NoDangling settings catalog file := by
  obtain ⟨catalog, hfiles, hrequested⟩ := generate_eq_ok h
  obtain ⟨typings, htypings, houtput⟩ := hrequested path hpath
  obtain ⟨file, typing, mid, last, hfile, run, heq⟩ := Catalog.typings_eq_ok htypings
  obtain ⟨hmem, rfl⟩ := Catalog.file?_eq_some hfiles hfile
  refine ⟨catalog, hfiles, file, hmem, rfl, typings, htypings, houtput, ?_⟩
  exact Catalog.noDangling hfiles hpaths hnamed hnul hmem htypings run (by rw [heq]) (by rw [heq])

theorem requestedPaths_singleton (path : String) : requestedPaths [path] = [path] := by
  rw [requestedPaths, List.eraseDups_cons]
  exact List.mergeSort_singleton path

theorem generate_noDangling_shop :
    ∃ outputs, generate {} Sample.files ["shop.proto"] = .ok outputs ∧
      ∃ catalog, Catalog.ofFiles Sample.files = .ok catalog ∧
        ∃ file ∈ Sample.files, file.path = "shop.proto" ∧
          ∃ typings, catalog.typings {} "shop.proto" = .ok typings ∧
            { source := "shop.proto", name := "shop.d.ts", content := typings.render {} } ∈
              outputs ∧
            typings.NoDangling {} catalog file := by
  have hrun : ∃ outputs, generate {} Sample.files ["shop.proto"] = .ok outputs := by
    simp only [generate, requestedPaths_singleton]
    exact ⟨_, rfl⟩
  obtain ⟨outputs, h⟩ := hrun
  exact ⟨outputs, h, generate_noDangling (by decide) (by decide) (by decide) h (by decide)⟩

end ProtoTypings
