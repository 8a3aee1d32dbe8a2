import ProtoTypings.Proofs.OutlineMirror
/-!
# Outlines are exact

What can be read off the outline of a file is what the file declares, no more
and no less. `Outline.Mirrors` says so: declarations and scopes each correspond
one to one to the types that have them, every node stands under the path of its
type, and every list of items has its order.

* `Catalog.outline_mirrors`: whenever a file has typings, their outline mirrors
  the file.
-/
namespace ProtoTypings

def Item.isScope : Item → Bool
  | .scope .. => true
  | .interface .. | .enumeration _ | .service _ => false

/-- How a property shows a field of a message: under the name of the field, with
the type that typing the field gives. -/
def Field.ShownBy (settings : Settings) (catalog : Catalog) (site : FieldSite) (field : Field)
    (property : Property) : Prop :=
  property.name = settings.casing.name .field field.name ∧
    ∃ before typing after, before.catalog = catalog ∧
      (field.typing settings site).Yields before typing after ∧ property.type = typing.type

/-- How an item shows the declaration of a type: a message as an interface with
one property for each field, in order, and an enum as an enumeration. -/
def DeclaredType.ShownBy (settings : Settings) (catalog : Catalog) (entry : DeclaredType)
    (item : Item) : Prop :=
  match entry.definition, item with
  | .message m, .interface name _ properties =>
    name = m.name ∧
      List.Forall₂ (Field.ShownBy settings catalog ⟨entry.fullName, entry.file⟩) m.fields
        properties
  | .enum e, .enumeration typing => typing.name = e.name
  | _, _ => False

/-- How an item shows the scope of a message: it is not empty, and what it
declares is in order. -/
def DeclaredType.ScopedBy (catalog : Catalog) (entry : DeclaredType) (item : Item) : Prop :=
  match entry.definition, item with
  | .message m, .scope name inner =>
    name = m.name ∧ inner ≠ [] ∧ Item.ScopesFollow inner ∧
      Item.headings inner = m.innerHeadings catalog entry.file entry.fullName
  | _, _ => False

structure Outline.Mirrors (settings : Settings) (catalog : Catalog) (file : File)
    (outline : Outline) : Prop where
  declarations :
    Multiset.Rel
      (fun (entry : DeclaredType) (node : List String × Item) =>
        node.1 = Dotted.segments entry.localName ∧ entry.ShownBy settings catalog node.2)
      ↑(catalog.types.filter (·.file = file.path))
      ↑((Item.allNodes [] outline.items).filter (·.2.kind?.isSome))
  /-- No two declarations stand in the same place. -/
  chains : (((Item.allNodes [] outline.items).filter (·.2.kind?.isSome)).map (·.1)).Nodup
  scopes :
    Multiset.Rel
      (fun (entry : DeclaredType) (node : List String × Item) =>
        node.1 = Dotted.segments entry.localName ∧ entry.ScopedBy catalog node.2)
      ↑((catalog.types.filter (·.file = file.path)).filter (·.hasScope))
      ↑((Item.allNodes [] outline.items).filter (·.2.isScope))
  scopesFollow : Item.ScopesFollow outline.items
  headings :
    Item.headings outline.items =
      file.enums.map (fun e => .enum e.name) ++ file.messages.map (fun m => .message m.name) ++
        file.services.map fun s => .service (s.name ++ "Service")

/-! ## Parts of one kind -/

theorem rel_filter {α β : Type} {R : α → β → Prop} {p : α → Bool} {q : β → Bool} {xs : List α}
    {ys : List β} (h : Multiset.Rel R ↑xs ↑ys) (hpq : ∀ x y, R x y → p x = q y) :
    Multiset.Rel R ↑(xs.filter p) ↑(ys.filter q) := by
  have hfilter {s : Multiset α} {t : Multiset β} (h : Multiset.Rel R s t) :
      Multiset.Rel R (s.filter fun x => p x) (t.filter fun y => q y) := by
    induction h with
    | zero => exact Multiset.Rel.zero
    | @cons x y s t hxy _ ih =>
      cases hy : q y with
      | true =>
        have hx : p x = true := (hpq x y hxy).trans hy
        rw [Multiset.filter_cons_of_pos s hx, Multiset.filter_cons_of_pos t hy]
        exact ih.cons hxy
      | false =>
        have hx : ¬ p x = true := by simp [hpq x y hxy, hy]
        rw [Multiset.filter_cons_of_neg s hx, Multiset.filter_cons_of_neg t (by simp [hy])]
        exact ih
  simpa only [Multiset.filter_coe, Bool.decide_eq_true] using hfilter h

theorem exists_mem_iff_of_rel {α β : Type} {R : α → β → Prop} {P : α → Prop} {Q : β → Prop}
    {xs : List α} {ys : List β} (h : Multiset.Rel R ↑xs ↑ys) (hPQ : ∀ x y, R x y → (P x ↔ Q y)) :
    (∃ x ∈ xs, P x) ↔ ∃ y ∈ ys, Q y := by
  constructor
  · intro hx
    obtain ⟨x, hx, hP⟩ := hx
    obtain ⟨y, hy, hR⟩ := Multiset.exists_mem_of_rel_of_mem h (Multiset.mem_coe.2 hx)
    exact ⟨y, Multiset.mem_coe.1 hy, (hPQ x y hR).1 hP⟩
  · intro hy
    obtain ⟨y, hy, hQ⟩ := hy
    obtain ⟨x, hx, hR⟩ :=
      Multiset.exists_mem_of_rel_of_mem (Multiset.rel_flip.2 h) (Multiset.mem_coe.2 hy)
    exact ⟨x, Multiset.mem_coe.1 hx, (hPQ x y hR).2 hQ⟩

theorem filter_parts_declaration (types : List DeclaredType) :
    (types.flatMap DeclaredType.parts).filter (·.1 = .declaration) =
      types.map fun entry => (.declaration, entry) := by
  induction types with
  | nil => rfl
  | cons entry rest ih =>
    rw [List.flatMap_cons, List.filter_append, ih, DeclaredType.parts]
    cases entry.hasScope <;> rfl

theorem filter_parts_scope (types : List DeclaredType) :
    (types.flatMap DeclaredType.parts).filter (·.1 = .scope) =
      (types.filter (·.hasScope)).map fun entry => (.scope, entry) := by
  induction types with
  | nil => rfl
  | cons entry rest ih =>
    rw [List.flatMap_cons, List.filter_append, ih, DeclaredType.parts,
      List.filter_cons (x := entry)]
    cases entry.hasScope <;> rfl

section
variable {context : TypingContext} {catalog : Catalog} {last : Resolver} {entry : DeclaredType}
  {node : List String × Item}

/-- A node shows a declaration or a scope, as the part that it shows is one. -/
theorem ShownAs.kind {part : Part × DeclaredType} (h : ShownAs context catalog last part node) :
    (part.1 = .declaration ↔ node.2.kind? = some part.2.kind) ∧
      decide (part.1 = .declaration) = node.2.kind?.isSome ∧
      decide (part.1 = .scope) = node.2.isScope := by
  obtain ⟨part, entry⟩ := part
  obtain ⟨-, h⟩ := h
  rw [DeclaredType.kind]
  cases part <;> cases hdefinition : entry.definition <;> simp only [hdefinition] at h
  · obtain ⟨leading, path, results, hitem, -⟩ := h
    rw [hitem]
    exact ⟨by simp [Item.kind?], rfl, rfl⟩
  · obtain ⟨outer, path, hitem⟩ := h
    rw [hitem]
    exact ⟨by simp [Item.kind?], rfl, rfl⟩
  · obtain ⟨inner, hitem, -⟩ := h
    rw [hitem]
    exact ⟨by simp [Item.kind?], rfl, rfl⟩

theorem Field.shownBy_of_yielded {message : String} {path : List Int32} {field : Field}
    {index : Nat} {result : Property × Option String}
    (h : ResolveM.Yielded catalog last (field.property context message path index) result) :
    field.ShownBy context.settings catalog ⟨message, context.file⟩ result.1 := by
  refine ⟨(Field.yielded_property h).1, ?_⟩
  obtain ⟨before, after, hbefore, h, -⟩ := h
  rw [Field.property, ResolveM.yields_bind_iff] at h
  obtain ⟨typing, next, htyping, h⟩ := h
  obtain ⟨rfl, -⟩ := ResolveM.yields_pure_iff.1 h
  exact ⟨before, typing, next, hbefore, htyping, rfl⟩

theorem ShownAs.shownBy (h : ShownAs context catalog last (.declaration, entry) node)
    (hfile : entry.file = context.file) :
    node.1 = Dotted.segments entry.localName ∧
      entry.ShownBy context.settings catalog node.2 := by
  refine ⟨h.1, ?_⟩
  obtain ⟨-, h⟩ := h
  cases hdefinition : entry.definition with
  | message m =>
    simp only [hdefinition] at h
    obtain ⟨leading, path, results, hitem, hresults⟩ := h
    simp only [DeclaredType.ShownBy, hdefinition, hitem, hfile, true_and]
    rw [List.forall₂_map_right_iff, ← forall₂_zipIdx_iff]
    exact hresults.imp fun field result hresult => Field.shownBy_of_yielded hresult
  | enum e =>
    simp only [hdefinition] at h
    obtain ⟨outer, path, hitem⟩ := h
    simp only [DeclaredType.ShownBy, hdefinition, hitem]
    rfl

theorem ShownAs.scopedBy (h : ShownAs context catalog last (.scope, entry) node)
    (hfile : entry.file = context.file) :
    node.1 = Dotted.segments entry.localName ∧ entry.ScopedBy catalog node.2 := by
  refine ⟨h.1, ?_⟩
  obtain ⟨-, h⟩ := h
  cases hdefinition : entry.definition with
  | message m =>
    simp only [hdefinition] at h
    obtain ⟨inner, hitem, hinner⟩ := h
    simp only [DeclaredType.ScopedBy, hdefinition, hitem, hfile, true_and]
    exact hinner
  | enum e => simp only [hdefinition] at h

end

/-! ## The outline of a file -/

namespace File.TypingRun

variable {settings : Settings} {file : File} {r mid last : Resolver} {typing : FileTyping}
  (run : file.TypingRun settings r mid last typing) (hnamed : file.WellNamed)
  (hnodup : (file.types.map (·.fullName)).Nodup)
include run

theorem headings_items :
    Item.headings typing.items =
      file.enums.map (fun e => .enum e.name) ++ file.messages.map (fun m => .message m.name) ++
        file.services.map fun s => .service (s.name ++ "Service") := by
  have henums : Item.headings (typing.enums.map .enumeration) =
      file.enums.map fun e => .enum e.name := by
    rw [Item.headings_map_enumeration, run.enums, EnumType.map_allTypings]
  have hmessages : typing.messages.map (fun t => Heading.message t.name) =
      file.messages.map fun m => .message m.name := by
    rw [← map_zipIdx file.messages]
    refine (map_eq_map_of_forall₂ run.messages fun m result h => ?_).symm
    rw [(Message.yielded_names h).1]
  have hservices : Item.headings (typing.services.map .service) =
      file.services.map fun s => .service (s.name ++ "Service") := by
    rw [Item.headings_map_service, ← map_zipIdx file.services]
    refine (map_eq_map_of_forall₂ run.services fun s result h => ?_).symm
    rw [(Service.yielded_typing h).1]
  rw [FileTyping.items_eq, Item.headings_append, Item.headings_append, henums,
    MessageTyping.headings_flatMap_items, hmessages, hservices]

include hnamed hnodup

/-- The parts of one sort and the nodes of the sort of items that shows them. -/
theorem rel_part {sort : Part} (shows : Item → Bool)
    (hservice : ∀ service, shows (.service service) = false)
    (hshows : ∀ part node, ShownAs (file.typingContext settings) r.catalog mid part node →
      decide (part.1 = sort) = shows node.2) :
    Multiset.Rel (ShownAs (file.typingContext settings) r.catalog mid)
      ↑((file.types.flatMap DeclaredType.parts).filter (·.1 = sort))
      ↑((Item.allNodes [] typing.items).filter fun node => shows node.2) := by
  obtain ⟨nodes, hnodes, hrel⟩ := run.rel_nodes hnamed hnodup
  have hservices : ((typing.services.map fun service =>
      ([service.name], Item.service service)).filter fun node => shows node.2) = [] := by
    rw [List.filter_eq_nil_iff]
    intro node hnode
    obtain ⟨service, -, rfl⟩ := List.mem_map.1 hnode
    simp [hservice]
  rw [hnodes, List.filter_append, hservices, List.append_nil]
  exact rel_filter hrel hshows

theorem rel_declarations :
    Multiset.Rel
      (fun entry node => ShownAs (file.typingContext settings) r.catalog mid (.declaration, entry)
        node)
      ↑file.types ↑((Item.allNodes [] typing.items).filter (·.2.kind?.isSome)) := by
  have hrel := run.rel_part hnamed hnodup (fun item => item.kind?.isSome) (fun _ => rfl)
    fun _ _ h => h.kind.2.1
  rw [filter_parts_declaration, ← Multiset.map_coe, Multiset.rel_map_left] at hrel
  exact hrel

/-- Every node with a kind shows the declaration of a type. -/
theorem exists_shown {node : List String × Item}
    (hnode : node ∈ Item.allNodes [] typing.items) (hkind : node.2.kind?.isSome) :
    ∃ entry ∈ file.types,
      ShownAs (file.typingContext settings) r.catalog mid (.declaration, entry) node := by
  have hmem : node ∈ (Item.allNodes [] typing.items).filter (·.2.kind?.isSome) :=
    List.mem_filter.2 ⟨hnode, hkind⟩
  obtain ⟨entry, hentry, hshown⟩ := Multiset.exists_mem_of_rel_of_mem
    (Multiset.rel_flip.2 (run.rel_declarations hnamed hnodup)) (Multiset.mem_coe.2 hmem)
  exact ⟨entry, Multiset.mem_coe.1 hentry, hshown⟩

/-- The services are at the top level. -/
theorem mem_services {chain : List String} {service : ServiceTyping}
    (hnode : (chain, .service service) ∈ Item.allNodes [] typing.items) :
    service ∈ typing.services ∧ chain = [service.name] := by
  obtain ⟨nodes, hnodes, hrel⟩ := run.rel_nodes hnamed hnodup
  rw [hnodes, List.mem_append] at hnode
  obtain hnode | hnode := hnode
  · obtain ⟨part, -, hshown⟩ := Multiset.exists_mem_of_rel_of_mem (Multiset.rel_flip.2 hrel)
      (Multiset.mem_coe.2 hnode)
    have hkind := hshown.kind.2
    cases hpart : part.1 with
    | declaration => simp [hpart, Item.kind?] at hkind
    | scope => simp [hpart, Item.isScope] at hkind
  · obtain ⟨typed, htyped, heq⟩ := List.mem_map.1 hnode
    cases heq
    exact ⟨htyped, rfl⟩

theorem rel_scopes :
    Multiset.Rel
      (fun entry node => ShownAs (file.typingContext settings) r.catalog mid (.scope, entry) node)
      ↑(file.types.filter (·.hasScope))
      ↑((Item.allNodes [] typing.items).filter (·.2.isScope)) := by
  have hrel := run.rel_part hnamed hnodup Item.isScope (fun _ => rfl) fun _ _ h => h.kind.2.2
  rw [filter_parts_scope, ← Multiset.map_coe, Multiset.rel_map_left] at hrel
  exact hrel

/-- A type is declared under the segments of its path, and nothing else is. -/
theorem exists_kind_iff {chain : List String} {kind : TypeKind} :
    (∃ entry ∈ file.types, Dotted.segments entry.localName = chain ∧ entry.kind = kind) ↔
      ∃ item, (chain, item) ∈ Item.allNodes [] typing.items ∧ item.kind? = some kind := by
  rw [exists_mem_iff_of_rel (Q := fun node => node.1 = chain ∧ node.2.kind? = some kind)
    (run.rel_declarations hnamed hnodup)]
  · constructor
    · intro h
      obtain ⟨⟨_, item⟩, hnode, rfl, hkind⟩ := h
      exact ⟨item, (List.mem_filter.1 hnode).1, hkind⟩
    · intro h
      obtain ⟨item, hnode, hkind⟩ := h
      exact ⟨(chain, item), List.mem_filter.2 ⟨hnode, by simp [hkind]⟩, rfl, hkind⟩
  · intro entry node hshown
    rw [hshown.1, hshown.kind.1.1 rfl, Option.some.injEq]

/-- A message with types inside has its scope under the segments of its path, and
nothing else has. -/
theorem exists_scope_iff {chain : List String} :
    (∃ entry ∈ file.types, Dotted.segments entry.localName = chain ∧ entry.hasScope = true) ↔
      ∃ item, (chain, item) ∈ Item.allNodes [] typing.items ∧ item.isScope = true := by
  have hrel := exists_mem_iff_of_rel (P := fun entry => Dotted.segments entry.localName = chain)
    (Q := fun node => node.1 = chain) (run.rel_scopes hnamed hnodup)
    fun entry node hshown => by rw [hshown.1]
  constructor
  · intro h
    obtain ⟨entry, hentry, hchain, hscope⟩ := h
    obtain ⟨⟨_, item⟩, hnode, rfl⟩ := hrel.1 ⟨entry, List.mem_filter.2 ⟨hentry, hscope⟩, hchain⟩
    exact ⟨item, List.mem_filter.1 hnode⟩
  · intro h
    obtain ⟨item, hnode⟩ := h
    obtain ⟨entry, hentry, hchain⟩ := hrel.2 ⟨(chain, item), List.mem_filter.2 hnode, rfl⟩
    exact ⟨entry, (List.mem_filter.1 hentry).1, hchain, (List.mem_filter.1 hentry).2⟩

/-- Different types of a file stand under different chains. -/
theorem chains_nodup :
    (((Item.allNodes [] typing.items).filter (·.2.kind?.isSome)).map (·.1)).Nodup := by
  have hchains : (file.types.map fun entry => Dotted.segments entry.localName).Perm
      (((Item.allNodes [] typing.items).filter (·.2.kind?.isSome)).map (·.1)) := by
    rw [← Multiset.coe_eq_coe, ← Multiset.map_coe, ← Multiset.map_coe, ← Multiset.rel_eq,
      Multiset.rel_map]
    exact (run.rel_declarations hnamed hnodup).mono fun _ _ _ _ h => h.1.symm
  rw [← hchains.nodup_iff]
  refine (List.Nodup.of_map _ hnodup).map_on fun a ha b hb heq => ?_
  refine List.inj_on_of_nodup_map hnodup ha hb ?_
  rw [File.fullName_of_mem_types ha, File.fullName_of_mem_types hb,
    hnamed.localName_inj ha hb heq]

end File.TypingRun

theorem FileTyping.scopesFollow_items (typing : FileTyping) : Item.ScopesFollow typing.items := by
  rw [FileTyping.items_eq]
  exact ((Item.scopesFollow_map_enumeration _).append
    (Item.scopesFollow_flatMap fun t _ => t.scopesFollow_items)).append
    (Item.scopesFollow_map_service _)

/-- **The outline mirrors the declarations.** If files with distinct paths make a
catalog and the names of their types can be segments, then every outline that is
made for one of them mirrors it. -/
theorem Catalog.outline_mirrors {files : List File} {catalog : Catalog} {settings : Settings}
    {path : String} {typings : Typings} (hfiles : Catalog.ofFiles files = .ok catalog)
    (hpaths : (files.map File.path).Nodup) (hnamed : ∀ file ∈ files, file.WellNamed)
    (h : catalog.typings settings path = .ok typings) :
    ∃ file ∈ files, file.path = path ∧ typings.outline.Mirrors settings catalog file := by
  obtain ⟨file, typing, mid, last, hfile, run, rfl⟩ := Catalog.typings_eq_ok h
  obtain ⟨hmem, hpath⟩ := Catalog.file?_eq_some hfiles hfile
  have hnodup := Catalog.fullNames_nodup_of_file hfiles hmem
  have hperm : file.types.Perm (catalog.types.filter (·.file = file.path)) := by
    rw [List.perm_ext_iff_of_nodup (List.Nodup.of_map _ hnodup)
      ((List.Nodup.of_map _ (Catalog.fullNames_nodup hfiles)).filter _)]
    intro entry
    rw [Catalog.mem_types_iff_of_paths_nodup hfiles hpaths hfile, List.mem_filter, hpath]
    simp
  refine ⟨file, hmem, hpath, ?_, run.chains_nodup (hnamed file hmem) hnodup, ?_,
    typing.scopesFollow_items, run.headings_items⟩
  · rw [← Multiset.coe_eq_coe.2 hperm]
    exact (run.rel_declarations (hnamed file hmem) hnodup).mono fun entry hentry _ _ hshown =>
      hshown.shownBy (File.file_of_mem_types hentry)
  · rw [← Multiset.coe_eq_coe.2 (hperm.filter _)]
    exact (run.rel_scopes (hnamed file hmem) hnodup).mono fun entry hentry _ _ hshown =>
      hshown.scopedBy (File.file_of_mem_types (List.mem_filter.1 hentry).1)

theorem Catalog.outline_mirrors_shop :
    ∃ typings, Sample.catalog.typings {} "shop.proto" = .ok typings ∧
      ∃ file ∈ Sample.files, file.path = "shop.proto" ∧
        typings.outline.Mirrors {} Sample.catalog file := by
  obtain ⟨typings, h⟩ := Sample.exists_typings
  exact ⟨typings, h, Catalog.outline_mirrors Sample.ofFiles_eq (by decide) (by decide) h⟩

end ProtoTypings
