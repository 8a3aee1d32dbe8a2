import ProtoTypings.Proofs.NameCapture
/-!
# Following a path through an outline

How a path of names is followed from a place in a declaration file. The first name
is sought in the scopes around the place, from the inside out, and the first scope
that declares it counts, whatever it declares there. The other names lead from that
scope further in, and there is no way back if they lead nowhere. Scopes of the same
name are one.

**Results.**
* `Item.under_eq`: the items that a path leads to are the nodes under that chain.
* `Item.nearest?_eq_none_iff`, `Item.nearest?_eq_top`: when no scope around a place
  declares a name, and when only the outermost does.
* `Outline.lookup_eq_filter`: what is found from a place around which only the
  outermost scope declares the first name.
-/
namespace ProtoTypings

namespace Item

/-- What is inside an item if it is a scope of the given name. -/
def inside (name : String) : Item → List Item
  | scope found inner => if found = name then inner else []
  | interface .. | enumeration _ | service _ => []

/-- What is inside the scopes of a given name. -/
def enter (name : String) (items : List Item) : List Item := items.flatMap (inside name)

/-- The items that a path of names leads to. -/
def under : List Item → List String → List Item
  | _, [] => []
  | items, [name] => items.filter (·.name = name)
  | items, name :: next :: rest => under (enter name items) (next :: rest)

/-- The innermost scope that declares a name, among those on the way to `place`: the
chain that leads to it, and its items. -/
def nearest? (first : String) : List Item → List String → Option (List String × List Item)
  | items, [] => if items.any (·.name = first) then some ([], items) else none
  | items, name :: place =>
    match nearest? first (enter name items) place with
    | some (outer, inner) => some (name :: outer, inner)
    | none => if items.any (·.name = first) then some ([], items) else none

end Item

/-- The types that a path leads to from a place, each under its chain. -/
def Outline.lookup (outline : Outline) (place : List String) :
    List String → List (List String × Item)
  | [] => []
  | first :: rest =>
    match Item.nearest? first outline.items place with
    | some (outer, items) =>
      ((Item.under items (first :: rest)).filter Item.isType).map (outer ++ first :: rest, ·)
    | none => []

/-! ## Paths and chains -/

namespace Item

mutual

/-- The chain of a node goes through the item that has it. -/
theorem isPrefix_of_mem_nodes (start : List String) :
    ∀ item : Item, ∀ node ∈ nodes start item, start ++ [item.name] <+: node.1
  | scope name inner, node, hnode => by
    rw [nodes, List.mem_cons] at hnode
    obtain rfl | hnode := hnode
    · exact List.prefix_refl _
    · obtain ⟨item, -, hchain⟩ := exists_of_mem_allNodes (start ++ [name]) inner node hnode
      exact (List.prefix_append _ _).trans hchain
  | interface .., node, hnode => by
    rw [nodes, List.mem_singleton] at hnode
    exact hnode ▸ List.prefix_refl _
  | enumeration _, node, hnode => by
    rw [nodes, List.mem_singleton] at hnode
    exact hnode ▸ List.prefix_refl _
  | service _, node, hnode => by
    rw [nodes, List.mem_singleton] at hnode
    exact hnode ▸ List.prefix_refl _

theorem exists_of_mem_allNodes (start : List String) :
    ∀ items : List Item, ∀ node ∈ allNodes start items,
      ∃ item ∈ items, start ++ [item.name] <+: node.1
  | [], node, hnode => by cases hnode
  | item :: rest, node, hnode => by
    rw [allNodes, List.mem_append] at hnode
    obtain hnode | hnode := hnode
    · exact ⟨item, List.mem_cons_self, isPrefix_of_mem_nodes start item node hnode⟩
    · obtain ⟨found, hfound, hchain⟩ := exists_of_mem_allNodes start rest node hnode
      exact ⟨found, List.mem_cons_of_mem _ hfound, hchain⟩

end

theorem length_lt_of_mem_allNodes {start : List String} {items : List Item}
    {node : List String × Item} (h : node ∈ allNodes start items) :
    start.length < node.1.length := by
  obtain ⟨item, -, hchain⟩ := exists_of_mem_allNodes start items node h
  have hlength := hchain.length_le
  rw [List.length_append, List.length_singleton] at hlength
  omega

theorem allNodes_eq_flatMap (start : List String) (items : List Item) :
    allNodes start items = items.flatMap (nodes start) := by
  induction items with
  | nil => rfl
  | cons item rest ih => rw [allNodes, ih, List.flatMap_cons]

/-- An item has one node of its own, and the others are inside it. -/
theorem nodes_eq (start : List String) (item : Item) :
    nodes start item =
      (start ++ [item.name], item) ::
        allNodes (start ++ [item.name]) (inside item.name item) := by
  cases item with
  | scope name inner => simp [nodes, inside, Item.name]
  | _ => simp [nodes, inside, Item.name, allNodes]

theorem inside_of_ne {name : String} {item : Item} (h : item.name ≠ name) :
    inside name item = [] := by
  cases item with
  | scope found inner => exact if_neg h
  | _ => rfl

/-- The nodes of an item under a chain of one name. -/
theorem filter_nodes_singleton (start : List String) (name : String) (item : Item) :
    ((nodes start item).filter (·.1 = start ++ [name])).map (·.2) =
      [item].filter (·.name = name) := by
  have hinner : (allNodes (start ++ [item.name]) (inside item.name item)).filter
      (·.1 = start ++ [name]) = [] := by
    rw [List.filter_eq_nil_iff]
    intro node hnode hchain
    have hlength := length_lt_of_mem_allNodes hnode
    rw [of_decide_eq_true hchain] at hlength
    simp at hlength
  rw [nodes_eq, List.filter_cons, hinner]
  by_cases h : item.name = name <;> simp [h]

/-- The nodes of an item under a longer chain are inside it. -/
theorem filter_nodes_cons (start : List String) (name next : String) (rest : List String)
    (item : Item) :
    (nodes start item).filter (·.1 = start ++ name :: next :: rest) =
      (allNodes (start ++ [name]) (inside name item)).filter
        (·.1 = start ++ name :: next :: rest) := by
  rw [nodes_eq, List.filter_cons_of_neg (by simp)]
  by_cases h : item.name = name
  · rw [h]
  · rw [inside_of_ne h, allNodes, List.filter_nil, List.filter_eq_nil_iff]
    intro node hnode hchain
    obtain ⟨found, -, hprefix⟩ := exists_of_mem_allNodes _ _ node hnode
    rw [of_decide_eq_true hchain, List.append_assoc, List.prefix_append_right_inj,
      List.singleton_append, List.cons_prefix_cons] at hprefix
    exact h hprefix.1

/-- **The items that a path leads to** are the nodes under that chain. -/
theorem under_eq (items : List Item) (path start : List String) :
    under items path = ((allNodes start items).filter (·.1 = start ++ path)).map (·.2) := by
  induction items, path using under.induct generalizing start with
  | case1 items =>
    have hnone : (allNodes start items).filter (·.1 = start ++ []) = [] := by
      rw [List.filter_eq_nil_iff]
      intro node hnode hchain
      have hlength := length_lt_of_mem_allNodes hnode
      rw [of_decide_eq_true hchain, List.append_nil] at hlength
      exact Nat.lt_irrefl _ hlength
    rw [under, hnone, List.map_nil]
  | case2 items name =>
    rw [under, allNodes_eq_flatMap, List.filter_flatMap, List.map_flatMap]
    simp only [filter_nodes_singleton]
    rw [← List.filter_flatMap, List.flatMap_singleton']
  | case3 items name next rest ih =>
    have hchain : start ++ name :: next :: rest = start ++ [name] ++ next :: rest := by simp
    rw [under, ih (start ++ [name]), ← hchain, enter, allNodes_flatMap, allNodes_eq_flatMap,
      List.filter_flatMap, List.filter_flatMap]
    simp only [filter_nodes_cons]

theorem under_eq_nil_iff {items : List Item} {path : List String} :
    under items path = [] ↔ ∀ item, (path, item) ∉ allNodes [] items := by
  rw [under_eq items path [], List.map_eq_nil_iff, List.filter_eq_nil_iff]
  constructor
  · intro h item hnode
    exact h (path, item) hnode (by simp)
  · rintro h ⟨chain, item⟩ hnode hchain
    obtain rfl : chain = path := by simpa using hchain
    exact h item hnode

theorem under_cons {path : List String} (h : path ≠ []) (items : List Item) (name : String) :
    under items (name :: path) = under (enter name items) path := by
  cases path with
  | nil => exact absurd rfl h
  | cons next rest => rw [under]

theorem any_eq_false_iff {items : List Item} {first : String} :
    items.any (·.name = first) = false ↔ under items [first] = [] := by
  simp [under]

/-! ## The innermost scope -/

theorem nearest?_eq_none_iff {first : String} {items : List Item} {place : List String} :
    nearest? first items place = none ↔
      ∀ outer, outer <+: place → under items (outer ++ [first]) = [] := by
  induction place generalizing items with
  | nil => simp [nearest?, under]
  | cons name place ih =>
    have hhere : (∀ outer, outer <+: name :: place → under items (outer ++ [first]) = []) ↔
        (∀ outer, outer <+: place → under (enter name items) (outer ++ [first]) = []) ∧
          under items [first] = [] := by
      constructor
      · intro h
        refine ⟨fun outer houter => ?_, h [] List.nil_prefix⟩
        rw [← under_cons (by simp)]
        exact h (name :: outer) (List.cons_prefix_cons.2 ⟨rfl, houter⟩)
      · rintro ⟨hinner, hitems⟩ outer houter
        cases outer with
        | nil => exact hitems
        | cons found outer =>
          obtain ⟨rfl, hrest⟩ := List.cons_prefix_cons.1 houter
          rw [List.cons_append, under_cons (by simp)]
          exact hinner outer hrest
    rw [hhere, ← ih, nearest?]
    cases nearest? first (enter name items) place with
    | some found => simp
    | none => simp [← any_eq_false_iff]

/-- The outermost scope counts if it alone declares the name. -/
theorem nearest?_eq_top {first : String} {items : List Item} {place : List String}
    (hinner : ∀ outer, outer <+: place → outer ≠ [] → under items (outer ++ [first]) = [])
    (htop : under items [first] ≠ []) : nearest? first items place = some ([], items) := by
  have hany : items.any (·.name = first) = true := by
    rw [← Bool.not_eq_false, any_eq_false_iff]
    exact htop
  cases place with
  | nil => rw [nearest?, if_pos hany]
  | cons name place =>
    have hnone : nearest? first (enter name items) place = none := by
      rw [nearest?_eq_none_iff]
      intro outer houter
      rw [← under_cons (by simp)]
      exact hinner (name :: outer) (List.cons_prefix_cons.2 ⟨rfl, houter⟩) (by simp)
    rw [nearest?, hnone]
    exact if_pos hany

end Item

/-- **What is found** from a place around which only the outermost scope declares the
first name of a path: the types that stand under the path. -/
theorem Outline.lookup_eq_filter {outline : Outline} {place rest : List String} {first : String}
    (hinner : ∀ outer, outer <+: place → outer ≠ [] →
      ∀ item, (outer ++ [first], item) ∉ Item.allNodes [] outline.items)
    (htop : ∃ item, ([first], item) ∈ Item.allNodes [] outline.items) :
    outline.lookup place (first :: rest) =
      (Item.allNodes [] outline.items).filter
        fun node => node.1 = first :: rest && node.2.isType := by
  have hnearest : Item.nearest? first outline.items place = some ([], outline.items) := by
    refine Item.nearest?_eq_top (fun outer houter hne => ?_) fun hnone => ?_
    · exact Item.under_eq_nil_iff.2 (hinner outer houter hne)
    · obtain ⟨item, hitem⟩ := htop
      exact Item.under_eq_nil_iff.1 hnone item hitem
  have hself : ∀ node ∈ (Item.allNodes [] outline.items).filter
      (fun node => node.1 = first :: rest && node.2.isType), (first :: rest, node.2) = node := by
    intro node hnode
    obtain ⟨hchain, -⟩ := Bool.and_eq_true_iff.1 (List.mem_filter.1 hnode).2
    rw [← of_decide_eq_true hchain]
  rw [lookup, hnearest]
  dsimp only
  rw [Item.under_eq _ _ [], List.filter_map, List.filter_filter, List.map_map]
  simp only [Function.comp_def, List.nil_append, Bool.and_comm]
  exact (List.map_congr_left hself).trans (List.map_id _)

end ProtoTypings
