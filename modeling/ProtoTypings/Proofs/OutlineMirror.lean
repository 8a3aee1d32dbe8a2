import Mathlib.Data.List.Flatten
import Mathlib.Data.Multiset.Bind
import ProtoTypings.Output
import ProtoTypings.Proofs.MapEntryOrder
import ProtoTypings.Proofs.OutlineNodes
import ProtoTypings.Proofs.TypingRun
/-!
# The outline mirrors the declarations

Two recursions go over the messages of a file: one lists the declared types,
the other types them and arranges the items of the outline, where map entries
change places. Here their results are matched one to one.

A declared type has one part in the outline, its declaration, and a message
with types inside has a second part, its scope. `ShownAs` says how a part is
shown: under the segments of its path, a declaration by its own descriptor, a
scope with the right headings in the right order.

* `Message.rel_nodes`: the parts of a message and the nodes of its items.
* `File.TypingRun.rel_nodes`: the parts of a file and the nodes of its outline, services
  apart.
-/
namespace ProtoTypings

namespace Dotted

/-- The full name of the scope `outer` of a package; the empty scope is the
package itself. -/
def within (package outer : String) : String :=
  if outer = "" then package else join package outer

theorem join_within (package outer name : String) :
    join (within package outer) name = join package (join outer name) := by
  by_cases houter : outer = ""
  · simp [within, houter]
  · rw [within, if_neg houter, join_join package houter]

theorem within_join (package outer : String) {name : String} (h : name ≠ "") :
    within package (join outer name) = join package (join outer name) :=
  if_neg (join_ne_empty outer h)

end Dotted

/-! ## Parts of the outline -/

def Message.hasInner (m : Message) : Bool := !(m.nested.isEmpty && m.enums.isEmpty)

/-- Whether a declared type has a scope of its own. -/
def DeclaredType.hasScope (entry : DeclaredType) : Bool :=
  match entry.definition with
  | .message m => m.hasInner
  | .enum _ => false

/-- The two things that a declared type may have in an outline. -/
inductive Part where
  | declaration
  | scope
  deriving DecidableEq, Repr

def DeclaredType.parts (entry : DeclaredType) : List (Part × DeclaredType) :=
  (.declaration, entry) :: if entry.hasScope then [(.scope, entry)] else []

/-- The full names of the entry types that the map fields of a message use, in
the order of the fields. -/
def Message.usedEntries (catalog : Catalog) (file fullName : String) (m : Message) : List String :=
  m.fields.filterMap fun field => (field.mapType? catalog ⟨fullName, file⟩).map (·.fullName)

/-- What the scope of a message declares: enums, then messages in their order,
then map entries by the first field that uses them. -/
def Message.innerHeadings (catalog : Catalog) (file fullName : String) (m : Message) :
    List Heading :=
  m.enums.map (fun e => .enum e.name) ++
    (m.nested.filter (!·.isMapEntry)).map (fun n => .message n.name) ++
    (MessageTyping.placeNames fullName (m.usedEntries catalog file fullName)
      ((m.nested.filter (·.isMapEntry)).map (·.name))).map .message

/-- How a part of a declared type is shown by a node, when the file was typed
on the way to the resolver `last`. -/
def ShownAs (context : TypingContext) (catalog : Catalog) (last : Resolver)
    (part : Part × DeclaredType) (node : List String × Item) : Prop :=
  node.1 = Dotted.segments part.2.localName ∧
    match part.1, part.2.definition with
    | .declaration, .message m =>
      ∃ leading path results, node.2 = .interface m.name leading (results.map Prod.fst) ∧
        List.Forall₂ (fun field result => ResolveM.Yielded catalog last
          (field.1.property context part.2.fullName path field.2) result) m.fields.zipIdx results
    | .declaration, .enum e => ∃ outer path, node.2 = .enumeration (e.typing context outer path)
    | .scope, .message m =>
      ∃ inner, node.2 = .scope m.name inner ∧ inner ≠ [] ∧ Item.ScopesFollow inner ∧
        Item.headings inner = m.innerHeadings catalog context.file part.2.fullName
    | .scope, .enum _ => False

/-! ## Lists that correspond -/

section lists
variable {α β γ δ : Type}

theorem rel_flatMap {R : α → β → Prop} {S : γ → δ → Prop} {xs : List α} {ys : List β}
    {f : α → List γ} {g : β → List δ} (h : List.Forall₂ R xs ys)
    (hfg : ∀ x ∈ xs, ∀ y, R x y → Multiset.Rel S ↑(f x) ↑(g y)) :
    Multiset.Rel S ↑(xs.flatMap f) ↑(ys.flatMap g) := by
  induction h with
  | nil => exact Multiset.Rel.zero
  | @cons x y xs ys hxy _ ih =>
    rw [List.flatMap_cons, List.flatMap_cons, ← Multiset.coe_add, ← Multiset.coe_add]
    exact (hfg x List.mem_cons_self y hxy).add
      (ih fun x' hx' => hfg x' (List.mem_cons_of_mem _ hx'))

theorem rel_map {S : γ → δ → Prop} {xs : List α} {f : α → γ} {g : α → δ}
    (hfg : ∀ x ∈ xs, S (f x) (g x)) : Multiset.Rel S ↑(xs.map f) ↑(xs.map g) := by
  rw [← Multiset.map_coe, ← Multiset.map_coe, Multiset.rel_map]
  exact Multiset.rel_refl_of_refl_on fun x hx => hfg x hx

theorem map_eq_map_of_forall₂ {R : α → β → Prop} {xs : List α} {ys : List β} {f : α → γ}
    {g : β → γ} (h : List.Forall₂ R xs ys) (hfg : ∀ x y, R x y → f x = g y) :
    xs.map f = ys.map g := by
  induction h with
  | nil => rfl
  | cons hxy _ ih => rw [List.map_cons, List.map_cons, hfg _ _ hxy, ih]

theorem map_filter_of_forall₂ {R : α → β → Prop} {xs : List α} {ys : List β} {f : α → γ}
    {g : β → γ} {p : α → Bool} {q : β → Bool} (h : List.Forall₂ R xs ys)
    (hfg : ∀ x y, R x y → f x = g y ∧ p x = q y) :
    (xs.filter p).map f = (ys.filter q).map g := by
  induction h with
  | nil => rfl
  | @cons x y xs ys hxy _ ih =>
    obtain ⟨hvalue, hkept⟩ := hfg x y hxy
    rw [List.filter_cons, List.filter_cons, hkept]
    split
    · rw [List.map_cons, List.map_cons, hvalue, ih]
    · exact ih

theorem filterMap_eq_filterMap_of_forall₂ {R : α → β → Prop} {xs : List α} {ys : List β}
    {f : α → Option γ} {g : β → Option γ} (h : List.Forall₂ R xs ys)
    (hfg : ∀ x y, R x y → f x = g y) : xs.filterMap f = ys.filterMap g := by
  induction h with
  | nil => rfl
  | cons hxy _ ih => rw [List.filterMap_cons, List.filterMap_cons, hfg _ _ hxy, ih]

theorem exists_left_of_forall₂ {R : α → β → Prop} {xs : List α} {ys : List β}
    (h : List.Forall₂ R xs ys) : ∀ y ∈ ys, ∃ x ∈ xs, R x y := by
  induction h with
  | nil => exact List.forall_mem_nil _
  | @cons x y xs ys hxy _ ih =>
    refine List.forall_mem_cons.2 ⟨⟨x, List.mem_cons_self, hxy⟩, fun y' hy' => ?_⟩
    obtain ⟨x', hx', hrel⟩ := ih y' hy'
    exact ⟨x', List.mem_cons_of_mem _ hx', hrel⟩

theorem map_filter_zipIdx (xs : List α) (p : α → Bool) (f : α → γ) :
    (xs.zipIdx.filter fun x => p x.1).map (fun x => f x.1) = (xs.filter p).map f := by
  have h : xs.filter p = (xs.zipIdx.map (·.1)).filter p := by simp
  rw [h, List.filter_map, List.map_map]
  rfl

end lists

/-! ## One message -/

theorem EnumType.map_allTypings {α : Type} (context : TypingContext) (outer : String)
    (path : List Int32) (step : PathStep) (enums : List EnumType) (f : String → α) :
    (EnumType.allTypings context outer path step enums).map (fun typing => f typing.name) =
      enums.map fun e => f e.name := by
  rw [EnumType.allTypings, List.map_map, ← map_zipIdx enums]
  rfl

namespace Message

variable {context : TypingContext} {catalog : Catalog} {last : Resolver}

theorem yielded_names {m : Message} {outer : String} {path : List Int32} {typing : MessageTyping}
    (h : ResolveM.Yielded catalog last (m.typing context outer path) typing) :
    typing.name = m.name ∧ typing.fullName = Dotted.join outer m.name := by
  obtain ⟨properties, inner, -, -, htyping⟩ := yielded_typing h
  exact ⟨by rw [htyping], by rw [htyping]⟩

theorem nested_types_nodup {file package outer : String} {m : Message}
    (h : ((m.types file package outer).map (·.fullName)).Nodup) :
    ((m.nested.flatMap (Message.types file package (Dotted.join outer m.name))).map
      (·.fullName)).Nodup := by
  rw [Message.types_eq, List.map_cons, List.map_append] at h
  exact (List.nodup_cons.1 h).2.of_append_left

theorem nodup_of_mem_nested {file package outer : String} {m n : Message}
    (h : ((m.types file package outer).map (·.fullName)).Nodup) (hn : n ∈ m.nested) :
    ((n.types file package (Dotted.join outer m.name)).map (·.fullName)).Nodup :=
  nodup_map_of_mem (nested_types_nodup h) hn

/-- Types of one scope differ in their names if they differ in their full names. -/
theorem names_nodup {file package scope : String} {ms : List Message} {enums : List EnumType}
    (h : ((ms.flatMap (Message.types file package scope) ++
      enums.map (EnumType.declared file package scope)).map (·.fullName)).Nodup) :
    (ms.map (·.name) ++ enums.map (·.name)).Nodup := by
  have hsub : (ms.map fun n => DeclaredType.ofLocal file package (Dotted.join scope n.name)
      (.message n)).Sublist (ms.flatMap (Message.types file package scope)) := by
    rw [List.map_eq_flatMap]
    refine List.Sublist.flatMap_right _ fun n _ => ?_
    rw [Message.types_eq]
    exact (List.nil_sublist _).cons_cons _
  have hfull := ((hsub.append (List.Sublist.refl _)).map (·.fullName)).nodup h
  refine List.Nodup.of_map (fun name => Dotted.join package (Dotted.join scope name)) ?_
  rw [List.map_append, List.map_map] at hfull
  rw [List.map_append, List.map_map, List.map_map]
  rwa [List.map_map] at hfull

/-- The messages and enums right inside a message differ in their names. -/
theorem inner_names_nodup {file package outer : String} {m : Message}
    (h : ((m.types file package outer).map (·.fullName)).Nodup) :
    (m.nested.map (·.name) ++ m.enums.map (·.name)).Nodup := by
  rw [Message.types_eq, List.map_cons] at h
  exact names_nodup (List.nodup_cons.1 h).2

/-- The typings of the messages inside a message, those that are no map entries
and those that are, are together the typings of all. -/
theorem yielded_inner {m : Message} {outer : String} {path : List Int32} {typing : MessageTyping}
    (hnames : (m.nested.map (·.name)).Nodup)
    (h : ResolveM.Yielded catalog last (m.typing context outer path) typing) :
    ∃ inner : List MessageTyping, (typing.nested ++ typing.mapEntries).Perm inner ∧
      List.Forall₂ (fun n result => ResolveM.Yielded catalog last
        (n.1.typing context (Dotted.join outer m.name) (PathStep.messageNested.child path n.2))
        result) m.nested.zipIdx inner := by
  obtain ⟨properties, inner, -, hinner, htyping⟩ := yielded_typing h
  refine ⟨inner.map (·.1), ?_, List.forall₂_map_right_iff.2 (hinner.imp fun _ _ h => h.2)⟩
  have hfull : inner.map (·.1.fullName) =
      (m.nested.map (·.name)).map (Dotted.join (Dotted.join outer m.name)) := by
    rw [List.map_map, ← map_zipIdx m.nested]
    refine (map_eq_map_of_forall₂ hinner fun n result h => ?_).symm
    rw [(yielded_names h.2).2]
    rfl
  have hentries : (((inner.filter (·.2)).map (·.1)).map (·.fullName)).Nodup := by
    have hall : (inner.map (·.1.fullName)).Nodup := by
      rw [hfull]
      exact hnames.map fun _ _ heq => Dotted.join_right_inj.1 heq
    rw [List.map_map]
    exact (List.filter_sublist.map _).nodup hall
  -- entry types are placed by their full names, which must therefore differ
  have hplaced := MessageTyping.placeEntries_perm hentries (properties.filterMap (·.2))
  have hsplit : (inner.filter (!·.2) ++ inner.filter (·.2)).Perm inner :=
    List.perm_append_comm.trans (List.filter_append_perm (·.2) inner)
  rw [htyping]
  refine (hplaced.append_left _).trans ?_
  rw [← List.map_append]
  exact hsplit.map _

/-- The names of the typed messages inside a message, map entries or others. -/
theorem inner_names {scope : String} {path : List Int32} {ms : List Message}
    {inner : List (MessageTyping × Bool)}
    (h : List.Forall₂ (fun n result => result.2 = n.1.isMapEntry ∧
      ResolveM.Yielded catalog last
        (n.1.typing context scope (PathStep.messageNested.child path n.2)) result.1)
      ms.zipIdx inner) (keep : Bool → Bool) :
    ((inner.filter fun result => keep result.2).map (·.1)).map (·.name) =
      (ms.filter fun n => keep n.isMapEntry).map (·.name) := by
  rw [← map_filter_zipIdx ms, List.map_map]
  refine (map_filter_of_forall₂ h fun n result hresult => ?_).symm
  exact ⟨(yielded_names hresult.2).1.symm, by rw [hresult.1]⟩

/-- The entry types that typed fields name are those that the fields use. -/
theorem filterMap_mapEntry {m : Message} {fullName : String} {path : List Int32}
    {properties : List (Property × Option String)}
    (h : List.Forall₂ (fun field result => ResolveM.Yielded catalog last
      (field.1.property context fullName path field.2) result) m.fields.zipIdx properties) :
    properties.filterMap (·.2) = m.usedEntries catalog context.file fullName := by
  have hfields : m.fields = m.fields.zipIdx.map (·.1) := by simp
  rw [usedEntries, hfields, List.filterMap_map]
  exact (filterMap_eq_filterMap_of_forall₂ h
    fun _ _ hresult => (Field.yielded_property hresult).2.2.2.symm).symm

/-- The headings inside a typed message are those of its descriptor. -/
theorem headings_typing {m : Message} {outer : String} {path : List Int32}
    {typing : MessageTyping}
    (h : ResolveM.Yielded catalog last (m.typing context outer path) typing) :
    Item.headings typing.inner =
      m.innerHeadings catalog context.file (Dotted.join outer m.name) := by
  obtain ⟨properties, inner, hproperties, hinner, htyping⟩ := yielded_typing h
  have hnested : typing.nested.map (·.name) =
      (m.nested.filter (!·.isMapEntry)).map (·.name) := by
    rw [htyping]
    exact inner_names hinner (! ·)
  have hentries : typing.mapEntries.map (·.name) =
      MessageTyping.placeNames (Dotted.join outer m.name)
        (m.usedEntries catalog context.file (Dotted.join outer m.name))
        ((m.nested.filter (·.isMapEntry)).map (·.name)) := by
    have hplaced : ∀ entry ∈ (inner.filter (·.2)).map (·.1),
        entry.fullName = Dotted.join (Dotted.join outer m.name) entry.name := by
      intro entry hentry
      obtain ⟨result, hresult, rfl⟩ := List.mem_map.1 hentry
      obtain ⟨n, -, -, hyielded⟩ :=
        exists_left_of_forall₂ hinner result (List.mem_filter.1 hresult).1
      rw [(yielded_names hyielded).2, (yielded_names hyielded).1]
    rw [htyping, MessageTyping.map_name_placeEntries hplaced, filterMap_mapEntry hproperties]
    exact congrArg _ (inner_names hinner id)
  have henums : typing.enums.map (fun e => Heading.enum e.name) =
      m.enums.map fun e => .enum e.name := by
    rw [htyping, EnumType.map_allTypings]
  have hmessages (typings : List MessageTyping) :
      typings.map (fun t => Heading.message t.name) = (typings.map (·.name)).map .message := by
    rw [List.map_map]
    rfl
  rw [MessageTyping.headings_inner, henums, hmessages, hmessages, hnested, hentries, List.map_map]
  rfl

theorem hasScope_ofLocal (file package path : String) (m : Message) :
    (DeclaredType.ofLocal file package path (.message m)).hasScope = m.hasInner := rfl

/-- A typed message has something inside exactly when its descriptor has. -/
theorem inner_eq_nil_iff {m : Message} {outer : String} {path : List Int32}
    {typing : MessageTyping} (hnames : (m.nested.map (·.name)).Nodup)
    (h : ResolveM.Yielded catalog last (m.typing context outer path) typing) :
    typing.inner = [] ↔ m.hasInner = false := by
  obtain ⟨inner, hperm, hinner⟩ := yielded_inner hnames h
  obtain ⟨properties, _, -, -, htyping⟩ := yielded_typing h
  have hmessages : typing.nested ++ typing.mapEntries = [] ↔ m.nested = [] := by
    rw [← List.length_eq_zero_iff, hperm.length_eq, ← hinner.length_eq, List.length_zipIdx,
      List.length_eq_zero_iff]
  have henums : typing.enums = [] ↔ m.enums = [] := by
    rw [htyping, EnumType.allTypings, List.map_eq_nil_iff, List.zipIdx_eq_nil_iff]
  rw [MessageTyping.inner_eq_nil_iff, ← List.append_eq_nil_iff, hmessages, henums]
  simp [hasInner, and_comm]

/-- The parts of a message itself: its interface and, if anything is inside, its
scope. -/
theorem rel_own {m : Message} {package outer : String} {path : List Int32}
    {typing : MessageTyping}
    (hnodup : ((m.types context.file package outer).map (·.fullName)).Nodup)
    (h : ResolveM.Yielded catalog last (m.typing context (Dotted.within package outer) path)
      typing) :
    Multiset.Rel (ShownAs context catalog last)
      ↑(DeclaredType.parts (.ofLocal context.file package (Dotted.join outer m.name) (.message m)))
      ↑((Dotted.segments (Dotted.join outer m.name),
          Item.interface m.name typing.leading typing.properties) ::
        if typing.inner = [] then []
        else [(Dotted.segments (Dotted.join outer m.name), .scope m.name typing.inner)]) := by
  have hinner := inner_eq_nil_iff (inner_names_nodup hnodup).of_append_left h
  have hheadings := headings_typing h
  obtain ⟨properties, _, hproperties, -, htyping⟩ := yielded_typing h
  rw [Dotted.join_within] at hheadings hproperties
  rw [DeclaredType.parts, ← Multiset.cons_coe, ← Multiset.cons_coe, hasScope_ofLocal]
  refine Multiset.Rel.cons ⟨rfl, typing.leading, path, properties, ?_, hproperties⟩ ?_
  · rw [htyping]
  · by_cases hnil : typing.inner = []
    · rw [if_pos hnil, if_neg (by simp [hinner.1 hnil])]
      exact Multiset.Rel.zero
    · rw [if_neg hnil, if_pos (by simpa [hinner] using hnil)]
      exact Multiset.Rel.cons ⟨rfl, typing.inner, rfl, hnil, typing.scopesFollow_inner, hheadings⟩
        Multiset.Rel.zero

/-- The enums right inside a scope. -/
theorem rel_enums (package scope : String) (path : List Int32) (step : PathStep)
    (enums : List EnumType) (hnames : ∀ e ∈ enums, Dotted.IsSegment e.name) (outer : String) :
    Multiset.Rel (ShownAs context catalog last)
      ↑((enums.map (EnumType.declared context.file package scope)).flatMap DeclaredType.parts)
      ↑((EnumType.allTypings context outer path step enums).map fun typing =>
        (Dotted.segments scope ++ [typing.name], Item.enumeration typing)) := by
  have hparts : (enums.map (EnumType.declared context.file package scope)).flatMap
      DeclaredType.parts = enums.zipIdx.map fun e =>
        (Part.declaration, e.1.declared context.file package scope) := by
    rw [← map_zipIdx, List.flatMap_map, List.map_eq_flatMap]
    rfl
  rw [hparts, EnumType.allTypings, List.map_map]
  refine rel_map fun e he => ⟨?_, outer, step.child path e.2, rfl⟩
  exact (Dotted.segments_join scope (hnames e.1 (List.fst_mem_of_mem_zipIdx he))).symm

/-- **A message in the outline.** The parts of the types that a message declares
and the nodes of its items correspond one to one. -/
theorem rel_nodes (m : Message) :
    ∀ (package outer : String) (path : List Int32) (typing : MessageTyping),
      (∀ entry ∈ m.types context.file package outer, Dotted.IsSegment entry.simpleName) →
      ((m.types context.file package outer).map (·.fullName)).Nodup →
      ResolveM.Yielded catalog last (m.typing context (Dotted.within package outer) path) typing →
      Multiset.Rel (ShownAs context catalog last)
        ↑((m.types context.file package outer).flatMap DeclaredType.parts)
        ↑(Item.allNodes (Dotted.segments outer) typing.items) := by
  induction m using Message.nested_induction with
  | step m ih =>
    intro package outer path typing hnames hnodup hyielded
    obtain ⟨hname, hnestedNames, henumNames⟩ := Message.forall_types.1 hnames
    have hchain : Dotted.segments (Dotted.join outer m.name) = Dotted.segments outer ++ [m.name] :=
      Dotted.segments_join outer hname
    obtain ⟨inner, hperm, hinner⟩ :=
      yielded_inner (inner_names_nodup hnodup).of_append_left hyielded
    have hwithin : Dotted.within package (Dotted.join outer m.name) =
        Dotted.join package (Dotted.join outer m.name) := Dotted.within_join package outer hname.1
    rw [Dotted.join_within, ← hwithin] at hinner
    obtain ⟨_, _, -, -, htyping⟩ := yielded_typing hyielded
    have hown : typing.name = m.name := by rw [htyping]
    have hnested : Multiset.Rel (ShownAs context catalog last)
        ↑((m.nested.flatMap (Message.types context.file package (Dotted.join outer m.name))).flatMap
          DeclaredType.parts)
        ↑((typing.nested ++ typing.mapEntries).flatMap fun t =>
          Item.allNodes (Dotted.segments (Dotted.join outer m.name)) t.items) := by
      rw [Multiset.coe_eq_coe.2 (hperm.flatMap_right _), List.flatMap_assoc, ← flatMap_zipIdx]
      refine rel_flatMap hinner fun n hn result hresult => ?_
      have hmem := List.fst_mem_of_mem_zipIdx hn
      exact ih n.1 hmem package _ _ _ (hnestedNames n.1 hmem) (nodup_of_mem_nested hnodup hmem)
        hresult
    have henums : Multiset.Rel (ShownAs context catalog last)
        ↑((m.enums.map
          (EnumType.declared context.file package (Dotted.join outer m.name))).flatMap
          DeclaredType.parts)
        ↑(typing.enums.map fun enum =>
          (Dotted.segments (Dotted.join outer m.name) ++ [enum.name], Item.enumeration enum)) := by
      rw [htyping]
      exact rel_enums package _ _ _ m.enums henumNames _
    rw [MessageTyping.allNodes_items, MessageTyping.allNodes_inner, Message.types_eq,
      List.flatMap_cons, List.flatMap_append, ← List.cons_append, hown, ← hchain,
      ← Multiset.coe_add, ← Multiset.coe_add, ← Multiset.coe_add, ← Multiset.coe_add]
    refine (rel_own hnodup hyielded).add ?_
    -- types list messages before enums, items enums before messages
    rw [add_comm]
    exact henums.add hnested

end Message

/-! ## One file -/

section file
variable {settings : Settings} {file : File} {r mid last : Resolver} {typing : FileTyping}

theorem FileTyping.items_eq (typing : FileTyping) :
    typing.items = typing.enums.map .enumeration ++ typing.messages.flatMap MessageTyping.items ++
      typing.services.map .service := by
  rw [FileTyping.items, MessageTyping.allItems_eq_flatMap]

/-- The nodes of a file: its enums, its messages and what is inside them, its
services. -/
theorem FileTyping.allNodes_items (typing : FileTyping) :
    Item.allNodes [] typing.items =
      typing.enums.map (fun enum => ([enum.name], .enumeration enum)) ++
        typing.messages.flatMap (fun t => Item.allNodes [] t.items) ++
        typing.services.map fun service => ([service.name], .service service) := by
  rw [FileTyping.items_eq, Item.allNodes_append, Item.allNodes_append,
    Item.allNodes_map_enumeration, Item.allNodes_flatMap, Item.allNodes_map_service]
  rfl

/-- **A file in its outline.** The parts of the types of a file and the nodes of
its outline that are no services correspond one to one. -/
theorem File.TypingRun.rel_nodes (run : file.TypingRun settings r mid last typing)
    (hnamed : file.WellNamed) (hnodup : (file.types.map (·.fullName)).Nodup) :
    ∃ nodes : List (List String × Item),
      Item.allNodes [] typing.items =
        nodes ++ typing.services.map (fun service => ([service.name], .service service)) ∧
      Multiset.Rel (ShownAs (file.typingContext settings) r.catalog mid)
        ↑(file.types.flatMap DeclaredType.parts) ↑nodes := by
  obtain ⟨hmessageNames, henumNames⟩ := File.forall_types.1 hnamed
  refine ⟨_, typing.allNodes_items, ?_⟩
  rw [File.types_eq, List.map_append] at hnodup
  rw [File.types_eq, List.flatMap_append, ← Multiset.coe_add, ← Multiset.coe_add, add_comm]
  refine Multiset.Rel.add ?_ ?_
  · rw [run.enums]
    exact Message.rel_enums file.packageName "" [] .fileEnum file.enums henumNames _
  · rw [List.flatMap_assoc, ← flatMap_zipIdx]
    refine rel_flatMap run.messages fun m hm result hresult => ?_
    have hmem := List.fst_mem_of_mem_zipIdx hm
    exact m.1.rel_nodes file.packageName "" _ _ (hmessageNames m.1 hmem)
      (nodup_map_of_mem hnodup.of_append_left hmem) hresult

end file
end ProtoTypings
