import ProtoTypings.Proofs.OutlineExact
import ProtoTypings.Proofs.SettingsIndependence
import ProtoTypings.Proofs.TypingFaults
/-!
# Names that are declared twice

An outline is refused if a scope declares a name twice. Full names are unique in
a catalog, so two types of one scope never share a name, at any depth and
whatever the names are. Services are no types: the interface of a service may
repeat the name of a type of its file, or that of another service.

**Results.**
* `Item.firstClash?_eq_none_iff`: nothing clashes exactly when the headings of
  every scope differ in their names.
* `Item.firstClash?_map_service`: what a clash among services says.
* `Message.firstClash?_inner`, `File.TypingRun.firstClash?_withoutServices`: the
  types of a file do not clash.
* `Catalog.conflicts_from_services`: a file is refused for a name exactly when a
  service collides.
-/
namespace ProtoTypings

def Heading.name : Heading → String
  | message name => name
  | enum name => name
  | service name => name

namespace Item

variable {path : String} {before items : List Item} {item : Item}

/-! ## Clashes in a list of items -/

theorem heading?_of_not_isScope (h : item.isScope = false) :
    ∃ heading, item.heading? = some heading ∧ heading.name = item.name := by
  cases item with
  | scope name inner => cases h
  | _ => exact ⟨_, rfl, rfl⟩

theorem innerClash?_of_not_isScope (h : item.isScope = false) : innerClash? path item = none := by
  cases item with
  | scope name inner => cases h
  | _ => simp [innerClash?]

/-- Only a scope may repeat a name that stands before it. -/
theorem clashes_of_not_isScope (h : item.isScope = false) :
    item.clashes before = decide (item.name ∈ before.map name) := by
  have hextends (previous : Item) : item.extendsItem previous = false := by
    cases item with
    | scope name inner => cases h
    | _ => rfl
  unfold clashes
  cases hfound : before.find? (·.name = item.name) with
  | none =>
    have hnone : item.name ∉ before.map name := by
      intro hmem
      obtain ⟨other, hother, heq⟩ := List.mem_map.1 hmem
      rw [List.find?_eq_none] at hfound
      exact hfound other hother (by simp [heq])
    simp [hnone]
  | some previous =>
    have hname : previous.name = item.name := by simpa using List.find?_some hfound
    have hmem : item.name ∈ before.map name :=
      List.mem_map.2 ⟨previous, List.mem_of_find?_eq_some hfound, hname⟩
    simp [hmem, hextends]

theorem firstClash?_append (items items' : List Item) :
    firstClash? path before (items ++ items') =
      (firstClash? path before items).or (firstClash? path (items.reverse ++ before) items') := by
  induction items generalizing before with
  | nil => simp [firstClash?]
  | cons item rest ih =>
    simp only [List.cons_append, firstClash?, ih]
    split
    · rfl
    · cases innerClash? path item with
      | some name => rfl
      | none => simp

theorem firstClash?_singleton :
    firstClash? path before [item] =
      if item.clashes before then some (Dotted.join path item.name) else innerClash? path item := by
  simp only [firstClash?]
  split
  · rfl
  · cases innerClash? path item <;> rfl

theorem ScopesFollow.of_append {items items' : List Item} (h : ScopesFollow (items ++ items')) :
    ScopesFollow items := by
  intro init name inner after heq
  exact h init name inner (after ++ items') (by simp [heq])

/-- Where scopes follow their interfaces, a name is declared by an item exactly
when it is declared by a heading. -/
theorem ScopesFollow.mem_names_iff (h : ScopesFollow items) {name : String} :
    name ∈ items.map Item.name ↔ name ∈ (headings items).map Heading.name := by
  have hheading {item : Item} (hitem : item ∈ items) (hscope : item.isScope = false) :
      item.name ∈ (headings items).map Heading.name := by
    obtain ⟨heading, hheading, hname⟩ := heading?_of_not_isScope hscope
    exact List.mem_map.2 ⟨heading, List.mem_filterMap.2 ⟨item, hitem, hheading⟩, hname⟩
  constructor
  · intro hmem
    obtain ⟨item, hitem, rfl⟩ := List.mem_map.1 hmem
    cases hscope : item.isScope with
    | false => exact hheading hitem hscope
    | true =>
      cases item with
      | scope scopeName inner =>
        obtain ⟨init, after, hitems⟩ := List.append_of_mem hitem
        obtain ⟨first, leading, properties, rfl⟩ := h init scopeName inner after hitems
        have hinterface : interface scopeName leading properties ∈ items := by simp [hitems]
        have hname := hheading hinterface rfl
        exact hname
      | _ => cases hscope
  · intro hmem
    obtain ⟨heading, hfound, rfl⟩ := List.mem_map.1 hmem
    obtain ⟨item, hitem, hheading⟩ := List.mem_filterMap.1 hfound
    refine List.mem_map.2 ⟨item, hitem, ?_⟩
    cases item with
    | scope name inner => cases hheading
    | _ => cases hheading; rfl

/-- An item at the end that is no scope must bring a new name. -/
theorem firstClash?_concat_of_not_isScope (hitems : ScopesFollow items)
    (hscope : item.isScope = false) :
    firstClash? path [] (items ++ [item]) = none ↔
      firstClash? path [] items = none ∧ item.name ∉ (headings items).map Heading.name := by
  rw [firstClash?_append, Option.or_eq_none_iff, List.append_nil, firstClash?_singleton,
    clashes_of_not_isScope hscope, innerClash?_of_not_isScope hscope, List.map_reverse,
    ← hitems.mem_names_iff]
  simp

/-- A scope at the end, right after its interface, is examined inside. -/
theorem firstClash?_concat_scope {name : String} {inner : List Item}
    (h : ScopesFollow (items ++ [.scope name inner])) :
    firstClash? path [] (items ++ [.scope name inner]) = none ↔
      firstClash? path [] items = none ∧ firstClash? (Dotted.join path name) [] inner = none := by
  obtain ⟨init, leading, properties, rfl⟩ := h items name inner [] rfl
  have hclash : clashes (init ++ [interface name leading properties]).reverse
      (.scope name inner) = false := by
    simp [clashes, Item.name, extendsItem]
  rw [firstClash?_append, Option.or_eq_none_iff, List.append_nil, firstClash?_singleton, hclash]
  simp [innerClash?]

/-- **When nothing clashes.** Where scopes follow their interfaces, no name is
found twice exactly when headings differ in their names, here and inside the
scopes of the list. -/
theorem firstClash?_eq_none_iff (h : ScopesFollow items) :
    firstClash? path [] items = none ↔
      ((headings items).map Heading.name).Nodup ∧
        ∀ name inner, .scope name inner ∈ items →
          firstClash? (Dotted.join path name) [] inner = none := by
  -- an item is checked against those before it, so the list is taken from its end
  induction items using List.reverseRecOn with
  | nil => simp [firstClash?, headings]
  | append_singleton items item ih =>
    have ih := ih h.of_append
    rw [headings_append, List.map_append]
    cases hscope : item.isScope with
    | false =>
      obtain ⟨heading, hheading, hname⟩ := heading?_of_not_isScope hscope
      have hlast : headings [item] = [heading] := by simp [headings, hheading]
      have hmem (name : String) (inner : List Item) :
          .scope name inner ∈ items ++ [item] ↔ .scope name inner ∈ items := by
        rw [List.mem_append, List.mem_singleton, or_iff_left]
        rintro rfl
        cases hscope
      rw [firstClash?_concat_of_not_isScope h.of_append hscope, ih, hlast, List.nodup_append_comm,
        List.map_singleton, List.singleton_append, List.nodup_cons, hname]
      simp only [hmem]
      tauto
    | true =>
      cases item with
      | scope name inner =>
        have hlast : headings [scope name inner] = [] := rfl
        rw [firstClash?_concat_scope h, ih, hlast, List.map_nil, List.append_nil]
        simp only [List.mem_append, List.mem_singleton, scope.injEq]
        constructor
        · rintro ⟨⟨hnodup, hscopes⟩, hinner⟩
          refine ⟨hnodup, fun name' inner' hmem => ?_⟩
          rcases hmem with hmem | ⟨rfl, rfl⟩
          · exact hscopes name' inner' hmem
          · exact hinner
        · rintro ⟨hnodup, hscopes⟩
          exact ⟨⟨hnodup, fun name' inner' hmem => hscopes name' inner' (.inl hmem)⟩,
            hscopes name inner (.inr ⟨rfl, rfl⟩)⟩
      | _ => cases hscope

theorem firstClash?_map_service {services : List ServiceTyping} {place : String}
    (h : firstClash? path before (services.map .service) = some place) :
    ∃ init service rest, services = init ++ service :: rest ∧
      place = Dotted.join path service.name ∧
      service.name ∈ before.map Item.name ++ init.map (·.name) := by
  induction services generalizing before with
  | nil => cases h
  | cons service services ih =>
    rw [List.map_cons, firstClash?, clashes_of_not_isScope rfl, innerClash?_of_not_isScope rfl] at h
    split at h
    · next hmem =>
      cases h
      exact ⟨[], service, services, rfl, rfl, List.mem_append_left _ (of_decide_eq_true hmem)⟩
    · obtain ⟨init, found, rest, rfl, hplace, hmem⟩ := ih h
      refine ⟨service :: init, found, rest, rfl, hplace, ?_⟩
      simp only [List.map_cons, List.mem_append, List.mem_cons] at hmem ⊢
      tauto

end Item

/-! ## The types of a catalog do not clash -/

theorem MessageTyping.exists_of_scope_mem {typings : List MessageTyping} {name : String}
    {inner : List Item} (h : .scope name inner ∈ typings.flatMap MessageTyping.items) :
    ∃ typing ∈ typings, inner = typing.inner := by
  obtain ⟨typing, htyping, hmem⟩ := List.mem_flatMap.1 h
  refine ⟨typing, htyping, ?_⟩
  by_cases hinner : typing.inner = []
  · simp [items_eq_of_inner_eq_nil hinner] at hmem
  · simp only [items_eq_of_inner_ne_nil hinner, List.mem_cons, Item.scope.injEq, reduceCtorEq,
      false_or, List.not_mem_nil, or_false] at hmem
    exact hmem.2

section types
variable {context : TypingContext} {catalog : Catalog} {last : Resolver}

/-- What is inside a typed message does not clash, at any depth. -/
theorem Message.firstClash?_inner {file package : String} (m : Message) :
    ∀ inner outer path typing, ((m.types file package inner).map (·.fullName)).Nodup →
      ResolveM.Yielded catalog last (m.typing context outer path) typing →
      ∀ place, Item.firstClash? place [] typing.inner = none := by
  induction m using Message.nested_induction with
  | step m ih =>
    intro inner outer path typing hnodup hyielded place
    have hnames := inner_names_nodup hnodup
    obtain ⟨typings, hperm, htypings⟩ := yielded_inner hnames.of_append_left hyielded
    obtain ⟨_, _, -, -, htyping⟩ := yielded_typing hyielded
    have henums : typing.enums.map (·.name) = m.enums.map (·.name) := by
      rw [htyping]
      exact EnumType.map_allTypings _ _ _ _ _ id
    have hmessages : (typing.nested.map (·.name) ++ typing.mapEntries.map (·.name)).Perm
        (m.nested.map (·.name)) := by
      have heq : typings.map (·.name) = m.nested.map (·.name) := by
        rw [← map_zipIdx m.nested]
        exact (map_eq_map_of_forall₂ htypings fun n t h => (yielded_names h).1.symm).symm
      rw [← List.map_append, ← heq]
      exact hperm.map _
    rw [Item.firstClash?_eq_none_iff typing.scopesFollow_inner]
    constructor
    · have hheadings : (Item.headings typing.inner).map Heading.name =
          typing.enums.map (·.name) ++ (typing.nested.map (·.name) ++
            typing.mapEntries.map (·.name)) := by
        rw [MessageTyping.headings_inner]
        simp only [List.map_append, List.map_map, List.append_assoc]
        rfl
      rw [hheadings, henums, (hmessages.append_left _).nodup_iff, List.nodup_append_comm]
      exact hnames
    · intro name scope hscope
      rw [MessageTyping.inner, List.append_assoc, ← List.flatMap_append, List.mem_append] at hscope
      rcases hscope with hscope | hscope
      · simp at hscope
      · obtain ⟨t, ht, rfl⟩ := MessageTyping.exists_of_scope_mem hscope
        obtain ⟨n, hn, hresult⟩ := exists_left_of_forall₂ htypings t (hperm.subset ht)
        have hmem := List.fst_mem_of_mem_zipIdx hn
        exact ih n.1 hmem _ _ _ t (nodup_of_mem_nested hnodup hmem) hresult _

end types

def FileTyping.withoutServices (typing : FileTyping) : FileTyping :=
  { typing with services := [] }

theorem FileTyping.items_eq_withoutServices (typing : FileTyping) :
    typing.items = typing.withoutServices.items ++ typing.services.map .service := by
  rw [FileTyping.items_eq, FileTyping.items_eq, withoutServices, List.map_nil, List.append_nil]

def Service.interfaceName (service : Service) : String := service.name ++ "Service"

/-- One of the services of a file has an interface that is called like a message
or an enum of the file, or like the interface of another service. -/
def File.Collides (file : File) (service : Service) : Prop :=
  ∃ before after, file.services = before ++ service :: after ∧
    service.interfaceName ∈ file.messages.map (·.name) ++ file.enums.map (·.name) ++
      (before ++ after).map Service.interfaceName

namespace File.TypingRun

variable {settings : Settings} {file : File} {r mid last : Resolver} {typing : FileTyping}
  (run : file.TypingRun settings r mid last typing)
include run

theorem service_names :
    typing.services.map (·.name) = file.services.map Service.interfaceName := by
  rw [← map_zipIdx file.services]
  exact (map_eq_map_of_forall₂ run.services fun s t h => (Service.yielded_typing h).1.symm).symm

/-- The names of the outline: types by their own names, services by those of
their interfaces. -/
theorem heading_names :
    (Item.headings typing.items).map Heading.name =
      file.enums.map (·.name) ++ file.messages.map (·.name) ++
        file.services.map Service.interfaceName := by
  rw [run.headings_items]
  simp only [List.map_append, List.map_map]
  rfl

theorem heading_names_withoutServices :
    (Item.headings typing.withoutServices.items).map Heading.name =
      file.enums.map (·.name) ++ file.messages.map (·.name) := by
  have hsplit := run.heading_names
  rw [typing.items_eq_withoutServices, Item.headings_append, List.map_append,
    Item.headings_map_service, List.map_map] at hsplit
  refine (List.append_inj' hsplit ?_).1
  rw [← run.service_names, List.length_map, List.length_map]

/-- If a service collides, a name is found twice. -/
theorem firstClash?_of_collides {service : Service} (h : file.Collides service) (package : String) :
    ∃ place, Item.firstClash? package [] typing.items = some place := by
  obtain ⟨before, after, hservices, hmem⟩ := h
  rw [← Option.ne_none_iff_exists']
  intro hnone
  have hdiffer := ((Item.firstClash?_eq_none_iff typing.scopesFollow_items).1 hnone).1
  have hperm : ((Item.headings typing.items).map Heading.name).Perm
      (service.interfaceName :: (file.messages.map (·.name) ++ file.enums.map (·.name) ++
        (before ++ after).map Service.interfaceName)) := by
    rw [run.heading_names, hservices]
    simp only [List.map_append, List.map_cons]
    refine (List.Perm.append_right _ List.perm_append_comm).trans ?_
    rw [← List.append_assoc]
    exact List.perm_middle.trans (by simp)
  exact (List.nodup_cons.1 (hperm.nodup_iff.1 hdiffer)).1 hmem

variable (hnodup : (file.types.map (·.fullName)).Nodup)
include hnodup

theorem firstClash?_scope {name place : String} {inner : List Item}
    (hscope : .scope name inner ∈ typing.items) : Item.firstClash? place [] inner = none := by
  rw [FileTyping.items_eq, List.append_assoc, List.mem_append, List.mem_append] at hscope
  rcases hscope with hscope | hscope | hscope
  · simp at hscope
  · obtain ⟨t, ht, rfl⟩ := MessageTyping.exists_of_scope_mem hscope
    obtain ⟨m, hm, hresult⟩ := exists_left_of_forall₂ run.messages t ht
    rw [File.types_eq, List.map_append] at hnodup
    exact m.1.firstClash?_inner _ _ _ t
      (nodup_map_of_mem hnodup.of_append_left (List.fst_mem_of_mem_zipIdx hm)) hresult place
  · simp at hscope

/-- **Types do not clash.** Without its services a file has an outline. -/
theorem firstClash?_withoutServices (place : String) :
    Item.firstClash? place [] typing.withoutServices.items = none := by
  rw [Item.firstClash?_eq_none_iff (FileTyping.scopesFollow_items _)]
  constructor
  · rw [run.heading_names_withoutServices, List.nodup_append_comm]
    rw [File.types_eq] at hnodup
    exact Message.names_nodup hnodup
  · intro name inner hscope
    have hmem : .scope name inner ∈ typing.items := by
      rw [typing.items_eq_withoutServices]
      exact List.mem_append_left _ hscope
    exact run.firstClash?_scope hnodup hmem

/-- What is found twice in a file is the interface of a service. -/
theorem collides_of_firstClash? {package place : String}
    (h : Item.firstClash? package [] typing.items = some place) :
    ∃ service, file.Collides service ∧ place = Dotted.join package service.interfaceName := by
  rw [typing.items_eq_withoutServices, Item.firstClash?_append,
    run.firstClash?_withoutServices hnodup, Option.none_or, List.append_nil] at h
  obtain ⟨init, typed, rest, hservices, hplace, hmem⟩ := Item.firstClash?_map_service h
  -- the typed services before and after this one are those of the file
  have hnames := run.service_names
  rw [hservices, List.map_append, List.map_cons] at hnames
  obtain ⟨before, others, hfile, hbefore, hothers⟩ := List.map_eq_append_iff.1 hnames.symm
  obtain ⟨service, after, rfl, hservice, -⟩ := List.map_eq_cons_iff.1 hothers
  refine ⟨service, ⟨before, after, hfile, ?_⟩, by rw [hplace, hservice]⟩
  rw [List.map_reverse, List.mem_append, List.mem_reverse,
    (FileTyping.scopesFollow_items _).mem_names_iff, run.heading_names_withoutServices,
    List.mem_append] at hmem
  rw [hservice, List.map_append, hbefore]
  simp only [List.mem_append]
  tauto

end File.TypingRun

/-! ## Refused files -/

namespace Catalog

variable {catalog : Catalog} {settings : Settings} {path : String} {file : File}

theorem output_of_yields {typing : FileTyping} {last : Resolver}
    (hfile : catalog.file? path = some file)
    (h : (file.typing settings).Yields (Resolver.ofFile catalog path) typing last) :
    catalog.output settings path =
      match Item.firstClash? file.packageName [] typing.items with
      | some place => .error (.packageConflict place path)
      | none => .ok ⟨path, Output.nameFor path, Typings.render settings
          ⟨last.imports.list, ⟨Text.splitNonempty '.' file.packageName, typing.items⟩⟩⟩ := by
  rw [output_eq_map, typings_of_yields hfile h, Outline.ofTyping]
  cases Item.firstClash? file.packageName [] typing.items <;> rfl

/-- A file that is refused for a name has been typed. -/
theorem exists_yields_of_packageConflict {place source : String}
    (h : catalog.output settings path = .error (.packageConflict place source)) :
    ∃ file typing last, catalog.file? path = some file ∧
      (file.typing settings).Yields (Resolver.ofFile catalog path) typing last := by
  cases hfile : catalog.file? path with
  | none => simp [output, typings, requireFile, hfile, bind, Except.bind] at h
  | some file =>
    obtain ⟨typing, last, hyields⟩ | ⟨fault, last, hfails⟩ :=
      ResolveM.yields_or_fails (file.typing settings) (Resolver.ofFile catalog path)
    · exact ⟨file, typing, last, rfl, hyields⟩
    · rw [output_eq_map, typings_of_fails hfile hfails] at h
      cases h
      exact (File.isTypeFault_of_fails hfails).elim

end Catalog

/-- **Conflicts come from services.** If files make a catalog, a file of it is
refused for a name only if the interface of one of its services is called like
another of its services' interfaces or like a message or an enum at its top. The
fault names the path of that interface. Without its services the file is never
refused for a name, neither at its top nor in a scope inside. And if all its
fields and methods can be typed, then a service that collides makes the file be
refused for a name. -/
theorem Catalog.conflicts_from_services {files : List File} {catalog : Catalog}
    (hfiles : Catalog.ofFiles files = .ok catalog) (settings : Settings) (path : String) :
    (∀ place source, catalog.output settings path = .error (.packageConflict place source) →
      source = path ∧ ∃ file service, catalog.file? path = some file ∧ file.Collides service ∧
        place = Dotted.join file.packageName service.interfaceName) ∧
    ∀ file, catalog.file? path = some file →
      (file.Typable settings catalog → ∃ typing last,
        (file.typing settings).Yields (Resolver.ofFile catalog path) typing last) ∧
      ∀ typing last, (file.typing settings).Yields (Resolver.ofFile catalog path) typing last →
        (∃ outline, Outline.ofTyping file.packageName path typing.withoutServices = .ok outline) ∧
        ((∃ service, file.Collides service) ↔
          ∃ place, catalog.output settings path = .error (.packageConflict place path)) := by
  have hconflict : ∀ place source,
      catalog.output settings path = .error (.packageConflict place source) →
        source = path ∧ ∃ file service, catalog.file? path = some file ∧ file.Collides service ∧
          place = Dotted.join file.packageName service.interfaceName := by
    intro place source h
    obtain ⟨file, typing, last, hfile, hyields⟩ := exists_yields_of_packageConflict h
    obtain ⟨mid, run⟩ := File.yields_typing hyields
    have hnodup := fullNames_nodup_of_file hfiles (file?_eq_some hfiles hfile).1
    rw [output_of_yields hfile hyields] at h
    cases hclash : Item.firstClash? file.packageName [] typing.items with
    | none => simp [hclash] at h
    | some found =>
      simp only [hclash, Except.error.injEq, Fault.packageConflict.injEq] at h
      obtain ⟨rfl, rfl⟩ := h
      obtain ⟨service, hcollides, rfl⟩ := run.collides_of_firstClash? hnodup hclash
      exact ⟨rfl, file, service, hfile, hcollides, rfl⟩
  refine ⟨hconflict, fun file hfile => ⟨fun htypable => htypable.yields, ?_⟩⟩
  intro typing last hyields
  obtain ⟨mid, run⟩ := File.yields_typing hyields
  have hnodup := fullNames_nodup_of_file hfiles (file?_eq_some hfiles hfile).1
  refine ⟨?_, ?_, ?_⟩
  · rw [Outline.ofTyping, run.firstClash?_withoutServices hnodup]
    exact ⟨_, rfl⟩
  · intro h
    obtain ⟨service, hcollides⟩ := h
    obtain ⟨place, hplace⟩ := run.firstClash?_of_collides hcollides file.packageName
    exact ⟨place, by rw [output_of_yields hfile hyields, hplace]⟩
  · intro h
    obtain ⟨place, hplace⟩ := h
    obtain ⟨-, file', service, hfile', hcollides, -⟩ := hconflict place path hplace
    rw [hfile, Option.some.injEq] at hfile'
    exact ⟨service, hfile' ▸ hcollides⟩

namespace Sample

/-- A file with a message that is called like the interface of its service, and
like a message inside it. -/
def kiosk : File where
  name := some "kiosk.proto"
  package := some "kiosk"
  messages := [{ name := "TillService", nested := [{ name := "TillService" }] }]
  services :=
    [{ name := "Till", methods := [{ name := "Open", input := "TillService"
                                     output := ".kiosk.TillService.TillService" }] }]

def kioskCatalog : Catalog := ⟨[kiosk], kiosk.types⟩

end Sample

theorem Catalog.conflicts_from_services_kiosk :
    Catalog.ofFiles [Sample.kiosk] = .ok Sample.kioskCatalog ∧
      ∃ place, Sample.kioskCatalog.output {} "kiosk.proto" =
        .error (.packageConflict place "kiosk.proto") := by
  have hfiles : Catalog.ofFiles [Sample.kiosk] = .ok Sample.kioskCatalog := rfl
  have htyped : ∃ typing last, (Sample.kiosk.typing {}).Yields
      (Resolver.ofFile Sample.kioskCatalog "kiosk.proto") typing last := ⟨_, _, rfl⟩
  have hcollides : ∃ service, Sample.kiosk.Collides service := ⟨_, [], [], rfl, by decide⟩
  obtain ⟨typing, last, hyields⟩ := htyped
  obtain ⟨-, hrefused⟩ := Catalog.conflicts_from_services hfiles {} "kiosk.proto"
  exact ⟨hfiles, ((hrefused Sample.kiosk rfl).2 typing last hyields).2.1 hcollides⟩

end ProtoTypings
