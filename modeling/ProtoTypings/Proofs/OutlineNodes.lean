import ProtoTypings.Catalog
import ProtoTypings.Outline.Basic
/-!
# Nodes of an outline

An outline is a tree; its nodes are the items at every depth. A node is known
by the chain of scope names that leads to it, followed by its own name.

* `Item.allNodes`: the nodes below a chain.
* `Item.headings`: what a list of items declares, scopes left out.
* `Item.ScopesFollow`: every scope of a list stands right after an interface of
  the same name.
* `MessageTyping.allNodes_items`, `MessageTyping.headings_items`,
  `MessageTyping.scopesFollow_items`: all three for the items of a message.
-/
namespace ProtoTypings

/-- What a declared type is. -/
inductive TypeKind where
  | message
  | enum
  deriving DecidableEq, Repr

def DeclaredType.kind (entry : DeclaredType) : TypeKind :=
  match entry.definition with
  | .message _ => .message
  | .enum _ => .enum

/-- A declaration of a scope: what it is and how it is called. -/
inductive Heading where
  | message (name : String)
  | enum (name : String)
  | service (name : String)
  deriving DecidableEq, Repr

namespace Item

def kind? : Item → Option TypeKind
  | interface .. => some .message
  | enumeration _ => some .enum
  | service _ | scope .. => none

/-- What an item declares; a scope goes with the interface before it. -/
def heading? : Item → Option Heading
  | interface name _ _ => some (.message name)
  | enumeration typing => some (.enum typing.name)
  | service typing => some (.service typing.name)
  | scope .. => none

def headings (items : List Item) : List Heading := items.filterMap heading?

theorem headings_append (items items' : List Item) :
    headings (items ++ items') = headings items ++ headings items' :=
  List.filterMap_append

theorem headings_map_enumeration (enums : List EnumTyping) :
    headings (enums.map .enumeration) = enums.map fun typing => .enum typing.name := by
  rw [headings, List.filterMap_map, ← List.filterMap_eq_map]
  rfl

theorem headings_map_service (services : List ServiceTyping) :
    headings (services.map .service) = services.map fun typing => .service typing.name := by
  rw [headings, List.filterMap_map, ← List.filterMap_eq_map]
  rfl

mutual

/-- The nodes of an item in the scope that `chain` leads to. -/
def nodes (chain : List String) : Item → List (List String × Item)
  | scope name items =>
    (chain ++ [name], scope name items) :: allNodes (chain ++ [name]) items
  | interface name leading properties =>
    [(chain ++ [name], interface name leading properties)]
  | enumeration typing => [(chain ++ [typing.name], enumeration typing)]
  | service typing => [(chain ++ [typing.name], service typing)]

/-- The nodes of a list of items in the scope that `chain` leads to. -/
def allNodes (chain : List String) : List Item → List (List String × Item)
  | [] => []
  | item :: rest => nodes chain item ++ allNodes chain rest

end

theorem allNodes_append (chain : List String) (items items' : List Item) :
    allNodes chain (items ++ items') = allNodes chain items ++ allNodes chain items' := by
  induction items with
  | nil => rfl
  | cons item rest ih => rw [List.cons_append, allNodes, ih, allNodes, List.append_assoc]

theorem allNodes_flatMap {α : Type} (chain : List String) (xs : List α) (f : α → List Item) :
    allNodes chain (xs.flatMap f) = xs.flatMap fun x => allNodes chain (f x) := by
  induction xs with
  | nil => rfl
  | cons x xs ih => rw [List.flatMap_cons, allNodes_append, ih, List.flatMap_cons]

theorem allNodes_map_enumeration (chain : List String) (enums : List EnumTyping) :
    allNodes chain (enums.map .enumeration) =
      enums.map fun typing => (chain ++ [typing.name], .enumeration typing) := by
  induction enums with
  | nil => rfl
  | cons typing rest ih => rw [List.map_cons, allNodes, ih]; rfl

theorem allNodes_map_service (chain : List String) (services : List ServiceTyping) :
    allNodes chain (services.map .service) =
      services.map fun typing => (chain ++ [typing.name], .service typing) := by
  induction services with
  | nil => rfl
  | cons typing rest ih => rw [List.map_cons, allNodes, ih]; rfl

/-- Every scope of a list stands right after an interface of the same name. -/
def ScopesFollow (items : List Item) : Prop :=
  ∀ before name inner after, items = before ++ .scope name inner :: after →
    ∃ init leading properties, before = init ++ [.interface name leading properties]

theorem scopesFollow_of_no_scope {items : List Item}
    (h : ∀ item ∈ items, ∀ name inner, item ≠ .scope name inner) : ScopesFollow items := by
  intro before name inner after heq
  subst heq
  exact absurd rfl (h (.scope name inner) (by simp) name inner)

theorem ScopesFollow.append {items items' : List Item} (h : ScopesFollow items)
    (h' : ScopesFollow items') : ScopesFollow (items ++ items') := by
  intro before name inner after heq
  obtain ⟨middle, rfl, hmiddle⟩ | ⟨middle, rfl, hmiddle⟩ := List.append_eq_append_iff.1 heq
  · obtain ⟨init, leading, properties, rfl⟩ := h' middle name inner after hmiddle
    exact ⟨items ++ init, leading, properties, by simp⟩
  · -- the scope stands in the first list, unless that ends right before it
    cases middle with
    | nil =>
      obtain ⟨init, leading, properties, hnil⟩ := h' [] name inner after hmiddle.symm
      simp at hnil
    | cons item rest =>
      obtain ⟨rfl, rfl⟩ := List.cons.inj hmiddle
      exact h before name inner rest rfl

theorem scopesFollow_flatMap {α : Type} {xs : List α} {f : α → List Item}
    (h : ∀ x ∈ xs, ScopesFollow (f x)) : ScopesFollow (xs.flatMap f) := by
  induction xs with
  | nil => exact scopesFollow_of_no_scope (List.forall_mem_nil _)
  | cons x xs ih =>
    rw [List.flatMap_cons]
    exact (h x List.mem_cons_self).append (ih fun y hy => h y (List.mem_cons_of_mem _ hy))

theorem scopesFollow_map_enumeration (enums : List EnumTyping) :
    ScopesFollow (enums.map .enumeration) := by
  refine scopesFollow_of_no_scope fun item hitem name inner heq => ?_
  obtain ⟨typing, -, rfl⟩ := List.mem_map.1 hitem
  cases heq

theorem scopesFollow_map_service (services : List ServiceTyping) :
    ScopesFollow (services.map .service) := by
  refine scopesFollow_of_no_scope fun item hitem name inner heq => ?_
  obtain ⟨typing, -, rfl⟩ := List.mem_map.1 hitem
  cases heq

end Item

/-! ## The items of a message -/

namespace MessageTyping

theorem allItems_eq_flatMap (typings : List MessageTyping) :
    allItems typings = typings.flatMap items := by
  induction typings with
  | nil => rfl
  | cons typing rest ih => rw [allItems, ih, List.flatMap_cons]

/-- The items inside a message: its enums, then the messages inside it, map
entries last. -/
def inner (typing : MessageTyping) : List Item :=
  typing.enums.map .enumeration ++ typing.nested.flatMap items ++ typing.mapEntries.flatMap items

theorem items_eq (typing : MessageTyping) :
    typing.items = withScope typing.name typing.leading typing.properties typing.inner := by
  obtain ⟨name, fullName, leading, properties, enums, nested, mapEntries⟩ := typing
  rw [items, allItems_eq_flatMap, allItems_eq_flatMap]
  rfl

/-- A message is one interface, followed by a scope if anything is inside. -/
theorem items_eq_of_inner_eq_nil {typing : MessageTyping} (h : typing.inner = []) :
    typing.items = [.interface typing.name typing.leading typing.properties] := by
  rw [items_eq, h]
  rfl

theorem items_eq_of_inner_ne_nil {typing : MessageTyping} (h : typing.inner ≠ []) :
    typing.items =
      [.interface typing.name typing.leading typing.properties,
        .scope typing.name typing.inner] := by
  obtain ⟨first, rest, hinner⟩ := List.exists_cons_of_ne_nil h
  rw [items_eq, hinner]
  rfl

theorem items_ne_nil (typing : MessageTyping) : typing.items ≠ [] := by
  rw [items_eq]
  exact List.cons_ne_nil _ _

theorem flatMap_items_eq_nil_iff {typings : List MessageTyping} :
    typings.flatMap items = [] ↔ typings = [] := by
  cases typings with
  | nil => simp
  | cons typing rest => simp [items_ne_nil]

theorem inner_eq_nil_iff {typing : MessageTyping} :
    typing.inner = [] ↔ typing.enums = [] ∧ typing.nested = [] ∧ typing.mapEntries = [] := by
  rw [inner, List.append_eq_nil_iff, List.append_eq_nil_iff, List.map_eq_nil_iff,
    flatMap_items_eq_nil_iff, flatMap_items_eq_nil_iff, and_assoc]

/-- The nodes of a message: its interface, its scope if there is one, and the
nodes inside. -/
theorem allNodes_items (chain : List String) (typing : MessageTyping) :
    Item.allNodes chain typing.items =
      (chain ++ [typing.name], .interface typing.name typing.leading typing.properties) ::
        ((if typing.inner = [] then []
            else [(chain ++ [typing.name], .scope typing.name typing.inner)]) ++
          Item.allNodes (chain ++ [typing.name]) typing.inner) := by
  by_cases h : typing.inner = []
  · rw [items_eq_of_inner_eq_nil h, if_pos h, h]
    rfl
  · rw [items_eq_of_inner_ne_nil h, if_neg h]
    simp [Item.allNodes, Item.nodes]

theorem allNodes_inner (chain : List String) (typing : MessageTyping) :
    Item.allNodes chain typing.inner =
      typing.enums.map (fun enum => (chain ++ [enum.name], .enumeration enum)) ++
        (typing.nested ++ typing.mapEntries).flatMap fun t => Item.allNodes chain t.items := by
  rw [inner, Item.allNodes_append, Item.allNodes_append, Item.allNodes_map_enumeration,
    Item.allNodes_flatMap, Item.allNodes_flatMap, List.flatMap_append, List.append_assoc]

theorem headings_items (typing : MessageTyping) :
    Item.headings typing.items = [.message typing.name] := by
  by_cases h : typing.inner = []
  · rw [items_eq_of_inner_eq_nil h]
    rfl
  · rw [items_eq_of_inner_ne_nil h]
    rfl

theorem headings_flatMap_items (typings : List MessageTyping) :
    Item.headings (typings.flatMap items) = typings.map fun typing => .message typing.name := by
  induction typings with
  | nil => rfl
  | cons typing rest ih =>
    rw [List.flatMap_cons, Item.headings_append, headings_items, ih]
    rfl

theorem headings_inner (typing : MessageTyping) :
    Item.headings typing.inner =
      typing.enums.map (fun enum => .enum enum.name) ++
        typing.nested.map (fun t => .message t.name) ++
        typing.mapEntries.map (fun t => .message t.name) := by
  rw [inner, Item.headings_append, Item.headings_append, Item.headings_map_enumeration,
    headings_flatMap_items, headings_flatMap_items]

theorem scopesFollow_items (typing : MessageTyping) : Item.ScopesFollow typing.items := by
  by_cases h : typing.inner = []
  · rw [items_eq_of_inner_eq_nil h]
    refine Item.scopesFollow_of_no_scope fun item hitem name inner heq => ?_
    rw [List.mem_singleton.1 hitem] at heq
    cases heq
  · rw [items_eq_of_inner_ne_nil h]
    intro before name inner after heq
    cases before with
    | nil => cases heq
    | cons first before =>
      obtain ⟨rfl, hrest⟩ := List.cons.inj heq
      cases before with
      | nil =>
        obtain ⟨hscope, -⟩ := List.cons.inj hrest
        obtain ⟨hname, -⟩ := Item.scope.inj hscope
        exact ⟨[], typing.leading, typing.properties, by rw [hname]; rfl⟩
      | cons second before => simp at hrest

theorem scopesFollow_inner (typing : MessageTyping) : Item.ScopesFollow typing.inner :=
  ((Item.scopesFollow_map_enumeration _).append
    (Item.scopesFollow_flatMap fun t _ => scopesFollow_items t)).append
    (Item.scopesFollow_flatMap fun t _ => scopesFollow_items t)

end MessageTyping
end ProtoTypings
