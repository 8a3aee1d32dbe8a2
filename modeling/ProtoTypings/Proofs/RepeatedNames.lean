import ProtoTypings.Proofs.NameClashes
/-!
# Which declarations have an outline

An outline is refused for a name that a scope declares twice. What is examined is the
sequence of items, in which a message with types inside it stands as an interface and
as a scope of the same name. Here the check is described by the declarations alone, for
any names and with no catalog behind them.

**Paths.** `typing.paths` lists what a file declares, each by the names of the messages
around it and its own: enums, then messages, then services, and what is inside a
message right after the message. As long as no path has occurred twice, a path is that
of one declaration; so the first path that occurs twice is the first name that its
scope declares twice.

**Results.**
* `Item.Traced`: the check of a list of items goes through a list of paths. There is one
  lemma for each way in which items are put together.
* `MessageTyping.traced_items`, `FileTyping.traced_items`: the items of messages and of
  files are checked along their paths.
* `MessageTyping.firstClash?_inner_eq_none_iff`: nothing inside a message is declared
  twice exactly when names differ in the message and in every message inside it.
* `Dotted.foldl_join`: the text of a path.
* `Outline.refused_for_first_repeat`: when there is an outline, and the fault otherwise.
-/
namespace ProtoTypings

/-! ## The first repetition in a list -/

section repetition
variable {α : Type} {xs ys seen : List α} {x : α}

/-- The first element of a list that occurs before it. -/
def FirstRepeat (xs : List α) (x : α) : Prop :=
  ∃ before after, xs = before ++ x :: after ∧ before.Nodup ∧ x ∈ before

variable [DecidableEq α]

/-- The first element of a list that occurs before it or among `seen`. -/
def firstRepeat? (seen : List α) : List α → Option α
  | [] => none
  | x :: xs => if x ∈ seen then some x else firstRepeat? (x :: seen) xs

theorem firstRepeat?_append (xs ys : List α) :
    firstRepeat? seen (xs ++ ys) =
      (firstRepeat? seen xs).or (firstRepeat? (xs.reverse ++ seen) ys) := by
  induction xs generalizing seen with
  | nil => simp [firstRepeat?]
  | cons x xs ih =>
    simp only [List.cons_append, firstRepeat?, ih]
    split
    · rfl
    · simp

/-- A function that keeps elements apart keeps the first repetition, and what the
elements never become may be forgotten. -/
theorem firstRepeat?_map {β : Type} [DecidableEq β] {f : α → β} (hf : Function.Injective f)
    {others : List β} (hothers : ∀ x ∈ xs, f x ∉ others) (seen : List α) :
    firstRepeat? (seen.map f ++ others) (xs.map f) = (firstRepeat? seen xs).map f := by
  induction xs generalizing seen with
  | nil => rfl
  | cons x xs ih =>
    obtain ⟨hx, hxs⟩ := List.forall_mem_cons.1 hothers
    have hmem : f x ∈ seen.map f ++ others ↔ x ∈ seen := by
      rw [List.mem_append, or_iff_left hx, List.mem_map_of_injective hf]
    have hrest := ih hxs (x :: seen)
    rw [List.map_cons, List.cons_append] at hrest
    rw [List.map_cons, firstRepeat?, firstRepeat?, hrest]
    simp only [hmem]
    split <;> rfl

theorem firstRepeat?_eq_some_iff_of_seen :
    firstRepeat? seen xs = some x ↔
      ∃ before after, xs = before ++ x :: after ∧ before.Nodup ∧ (∀ y ∈ before, y ∉ seen) ∧
        (x ∈ seen ∨ x ∈ before) := by
  induction xs generalizing seen with
  | nil => simp [firstRepeat?]
  | cons y ys ih =>
    rw [firstRepeat?]
    by_cases hy : y ∈ seen
    · rw [if_pos hy, Option.some.injEq]
      constructor
      · rintro rfl
        exact ⟨[], ys, rfl, List.nodup_nil, List.forall_mem_nil _, .inl hy⟩
      · rintro ⟨before, after, hsplit, -, hbefore, -⟩
        cases before with
        | nil => exact (List.cons.inj hsplit).1
        | cons first rest =>
          obtain ⟨rfl, -⟩ := List.cons.inj hsplit
          exact absurd hy (hbefore y List.mem_cons_self)
    · rw [if_neg hy, ih]
      constructor
      · rintro ⟨before, after, rfl, hnodup, hbefore, hx⟩
        refine ⟨y :: before, after, rfl, List.nodup_cons.2 ⟨?_, hnodup⟩, ?_, ?_⟩
        · exact fun hmem => hbefore y hmem List.mem_cons_self
        · refine List.forall_mem_cons.2 ⟨hy, fun z hz hseen => ?_⟩
          exact hbefore z hz (List.mem_cons_of_mem _ hseen)
        · rw [List.mem_cons] at hx ⊢
          tauto
      · rintro ⟨before, after, hsplit, hnodup, hbefore, hx⟩
        cases before with
        | nil =>
          obtain ⟨rfl, -⟩ := List.cons.inj hsplit
          exact absurd (hx.resolve_right List.not_mem_nil) hy
        | cons first rest =>
          obtain ⟨rfl, rfl⟩ := List.cons.inj hsplit
          obtain ⟨hnotMem, hnodup⟩ := List.nodup_cons.1 hnodup
          refine ⟨rest, after, rfl, hnodup, fun z hz hseen => ?_, ?_⟩
          · rcases List.mem_cons.1 hseen with rfl | hseen
            · exact hnotMem hz
            · exact hbefore z (List.mem_cons_of_mem _ hz) hseen
          · rw [List.mem_cons] at hx ⊢
            tauto

theorem firstRepeat?_eq_some_iff : firstRepeat? [] xs = some x ↔ FirstRepeat xs x := by
  rw [firstRepeat?_eq_some_iff_of_seen]
  simp [FirstRepeat]

end repetition

/-! ## The check along paths -/

namespace Item

/-- Paths that begin with the names of items, each of which is one of the paths. -/
structure Heads (items : List Item) (paths : List (List String)) : Prop where
  name_mem : ∀ item ∈ items, [item.name] ∈ paths
  exists_name : ∀ path ∈ paths, ∃ item ∈ items, ∃ rest, path = item.name :: rest

namespace Heads

variable {items items' : List Item} {paths paths' : List (List String)}

theorem nil : Heads [] [] := ⟨List.forall_mem_nil _, List.forall_mem_nil _⟩

theorem append (h : Heads items paths) (h' : Heads items' paths') :
    Heads (items ++ items') (paths ++ paths') := by
  constructor
  · intro item hitem
    rcases List.mem_append.1 hitem with hitem | hitem
    · exact List.mem_append_left _ (h.name_mem item hitem)
    · exact List.mem_append_right _ (h'.name_mem item hitem)
  · intro path hpath
    rcases List.mem_append.1 hpath with hpath | hpath
    · obtain ⟨item, hitem, hrest⟩ := h.exists_name path hpath
      exact ⟨item, List.mem_append_left _ hitem, hrest⟩
    · obtain ⟨item, hitem, hrest⟩ := h'.exists_name path hpath
      exact ⟨item, List.mem_append_right _ hitem, hrest⟩

theorem reverse (h : Heads items paths) : Heads items.reverse paths.reverse := by
  constructor
  · intro item hitem
    exact List.mem_reverse.2 (h.name_mem item (List.mem_reverse.1 hitem))
  · intro path hpath
    obtain ⟨item, hitem, hrest⟩ := h.exists_name path (List.mem_reverse.1 hpath)
    exact ⟨item, List.mem_reverse.2 hitem, hrest⟩

theorem mem_names (h : Heads items paths) {name : String} {rest : List String}
    (hpath : name :: rest ∈ paths) : name ∈ items.map Item.name := by
  obtain ⟨item, hitem, rest', heq⟩ := h.exists_name _ hpath
  rw [(List.cons.inj heq).1]
  exact List.mem_map_of_mem hitem

theorem singleton_mem_iff (h : Heads items paths) {name : String} :
    [name] ∈ paths ↔ name ∈ items.map Item.name := by
  constructor
  · exact h.mem_names
  · intro hname
    obtain ⟨item, hitem, rfl⟩ := List.mem_map.1 hname
    exact h.name_mem item hitem

end Heads

/-- The check of items goes through paths: after whatever was met before, the first clash
is that of the first path that has occurred. -/
structure Traced (items : List Item) (paths : List (List String)) : Prop where
  heads : Heads items paths
  clash_eq : ∀ place before seen, Heads before seen →
    firstClash? place before items =
      (firstRepeat? seen paths).map fun path => path.foldl Dotted.join place

namespace Traced

variable {items items' : List Item} {paths paths' : List (List String)}

theorem nil : Traced [] [] := ⟨.nil, fun _ _ _ _ => by simp [firstClash?, firstRepeat?]⟩

theorem append (h : Traced items paths) (h' : Traced items' paths') :
    Traced (items ++ items') (paths ++ paths') := by
  refine ⟨h.heads.append h'.heads, fun place before seen hbefore => ?_⟩
  have hmet : Heads (items.reverse ++ before) (paths.reverse ++ seen) :=
    h.heads.reverse.append hbefore
  rw [firstClash?_append, firstRepeat?_append, h.clash_eq place before seen hbefore,
    h'.clash_eq place _ _ hmet, Option.map_or]

theorem flatMap {β : Type} {xs : List β} {f : β → List Item} {g : β → List (List String)}
    (h : ∀ x ∈ xs, Traced (f x) (g x)) : Traced (xs.flatMap f) (xs.flatMap g) := by
  induction xs with
  | nil => exact .nil
  | cons x xs ih =>
    rw [List.flatMap_cons, List.flatMap_cons]
    exact (h x List.mem_cons_self).append (ih fun y hy => h y (List.mem_cons_of_mem _ hy))

/-- An item that is no scope is checked against the names before it. -/
theorem single {item : Item} (h : item.isScope = false) : Traced [item] [[item.name]] := by
  constructor
  · constructor
    · simp
    · intro path hpath
      rw [List.mem_singleton.1 hpath]
      exact ⟨item, List.mem_singleton_self item, [], rfl⟩
  · intro place before seen hbefore
    rw [firstClash?_singleton, clashes_of_not_isScope h, innerClash?_of_not_isScope h]
    simp only [firstRepeat?, hbefore.singleton_mem_iff, decide_eq_true_eq]
    split <;> rfl

theorem map {β : Type} {f : β → Item} (hscope : ∀ x, (f x).isScope = false) (xs : List β) :
    Traced (xs.map f) (xs.map fun x => [(f x).name]) := by
  have h : Traced (xs.flatMap fun x => [f x]) (xs.flatMap fun x => [[(f x).name]]) :=
    flatMap fun x _ => single (hscope x)
  rwa [← List.map_eq_flatMap, ← List.map_eq_flatMap] at h

/-- An interface and its scope: what is inside is checked with nothing before it, and its
paths go through the name. -/
theorem scope {name : String} {leading : Option String} {properties : List Property}
    {inner : List Item} (h : Traced inner paths) :
    Traced [.interface name leading properties, .scope name inner]
      ([name] :: paths.map (name :: ·)) := by
  constructor
  · constructor
    · simp [Item.name]
    · intro path hpath
      refine ⟨.interface name leading properties, List.mem_cons_self, ?_⟩
      rcases List.mem_cons.1 hpath with rfl | hpath
      · exact ⟨[], rfl⟩
      · obtain ⟨rest, -, rfl⟩ := List.mem_map.1 hpath
        exact ⟨rest, rfl⟩
  · intro place before seen hbefore
    have hinterface : (interface name leading properties).clashes before =
        decide ([name] ∈ seen) := by
      rw [clashes_of_not_isScope rfl]
      simp only [hbefore.singleton_mem_iff]
      rfl
    have hscope : (Item.scope name inner).clashes (interface name leading properties :: before) =
        false := by
      simp [clashes, Item.name, extendsItem]
    have hcheck : firstClash? place before [.interface name leading properties, .scope name inner] =
        if [name] ∈ seen then some (Dotted.join place name)
        else firstClash? (Dotted.join place name) [] inner := by
      rw [← List.singleton_append, firstClash?_append, firstClash?_singleton, firstClash?_singleton,
        hinterface, innerClash?_of_not_isScope rfl, List.reverse_singleton, List.singleton_append,
        hscope, innerClash?]
      by_cases hseen : [name] ∈ seen
      · simp [hseen, Item.name]
      · simp [hseen]
    rw [hcheck, firstRepeat?]
    by_cases hseen : [name] ∈ seen
    · rw [if_pos hseen, if_pos hseen]
      rfl
    · -- nothing met before begins with the name, and no path inside is empty
      have hothers : ∀ path ∈ paths, name :: path ∉ [name] :: seen := by
        intro path hpath hmem
        obtain ⟨item, -, rest, rfl⟩ := h.heads.exists_name path hpath
        rcases List.mem_cons.1 hmem with heq | hmem
        · simp at heq
        · exact hseen (hbefore.singleton_mem_iff.2 (hbefore.mem_names hmem))
      have hpaths := firstRepeat?_map List.cons_injective hothers []
      rw [List.map_nil, List.nil_append] at hpaths
      rw [if_neg hseen, if_neg hseen, hpaths, h.clash_eq _ [] [] .nil, Option.map_map]
      rfl

end Traced
end Item

/-! ## Paths of typed declarations -/

mutual

/-- The paths of a message: its name, and through it the paths of what is inside, enums
before messages and map entries last. -/
def MessageTyping.paths : MessageTyping → List (List String)
  | .mk name _ _ _ enums nested mapEntries =>
    [name] :: (enums.map (fun enum => [enum.name]) ++ MessageTyping.allPaths nested ++
      MessageTyping.allPaths mapEntries).map (name :: ·)

def MessageTyping.allPaths : List MessageTyping → List (List String)
  | [] => []
  | message :: rest => MessageTyping.paths message ++ MessageTyping.allPaths rest

end

/-- The paths of a file: enums, then messages, then services. -/
def FileTyping.paths (typing : FileTyping) : List (List String) :=
  typing.enums.map (fun enum => [enum.name]) ++ MessageTyping.allPaths typing.messages ++
    typing.services.map fun service => [service.name]

namespace MessageTyping

/-- A message, or a message inside it at any depth. -/
inductive Holds : MessageTyping → MessageTyping → Prop
  | self (typing : MessageTyping) : Holds typing typing
  | nested {typing inner held : MessageTyping} :
      inner ∈ typing.nested → Holds inner held → Holds typing held
  | mapEntry {typing inner held : MessageTyping} :
      inner ∈ typing.mapEntries → Holds inner held → Holds typing held

def innerNames (typing : MessageTyping) : List String :=
  typing.enums.map (·.name) ++ typing.nested.map (·.name) ++ typing.mapEntries.map (·.name)

mutual

theorem nested_induction {motive : MessageTyping → Prop}
    (step : ∀ typing : MessageTyping, (∀ t ∈ typing.nested ++ typing.mapEntries, motive t) →
      motive typing) : ∀ typing : MessageTyping, motive typing
  | .mk name fullName leading properties enums nested mapEntries =>
    step (.mk name fullName leading properties enums nested mapEntries)
      (List.forall_mem_append.2 ⟨forall_nested step nested, forall_nested step mapEntries⟩)

theorem forall_nested {motive : MessageTyping → Prop}
    (step : ∀ typing : MessageTyping, (∀ t ∈ typing.nested ++ typing.mapEntries, motive t) →
      motive typing) : ∀ typings : List MessageTyping, ∀ t ∈ typings, motive t
  | [] => List.forall_mem_nil _
  | typing :: rest =>
    List.forall_mem_cons.2 ⟨nested_induction step typing, forall_nested step rest⟩

end

theorem allPaths_eq_flatMap (typings : List MessageTyping) :
    allPaths typings = typings.flatMap paths := by
  induction typings with
  | nil => rfl
  | cons typing rest ih => rw [allPaths, ih, List.flatMap_cons]

def innerPaths (typing : MessageTyping) : List (List String) :=
  typing.enums.map (fun enum => [enum.name]) ++ typing.nested.flatMap paths ++
    typing.mapEntries.flatMap paths

theorem paths_eq (typing : MessageTyping) :
    typing.paths = [typing.name] :: typing.innerPaths.map (typing.name :: ·) := by
  obtain ⟨name, fullName, leading, properties, enums, nested, mapEntries⟩ := typing
  rw [paths, allPaths_eq_flatMap, allPaths_eq_flatMap]
  rfl

theorem traced_of_inner {typing : MessageTyping} (h : Item.Traced typing.inner typing.innerPaths) :
    Item.Traced typing.items typing.paths := by
  rw [paths_eq]
  by_cases hinner : typing.inner = []
  · -- without items inside there are no paths inside either
    have hpaths : typing.innerPaths = [] := by
      refine List.eq_nil_iff_forall_not_mem.2 fun path hpath => ?_
      obtain ⟨item, hitem, -⟩ := h.heads.exists_name path hpath
      rw [hinner] at hitem
      cases hitem
    rw [items_eq_of_inner_eq_nil hinner, hpaths]
    exact .single rfl
  · rw [items_eq_of_inner_ne_nil hinner]
    exact .scope h

/-- The items of a message are checked along its paths. -/
theorem traced_items (typing : MessageTyping) : Item.Traced typing.items typing.paths := by
  induction typing using nested_induction with
  | step typing ih =>
    obtain ⟨hnested, hentries⟩ := List.forall_mem_append.1 ih
    refine traced_of_inner (((Item.Traced.map (fun _ => rfl) _).append ?_).append ?_)
    · exact .flatMap hnested
    · exact .flatMap hentries

/-! ## Names that differ -/

theorem mem_inner_of_ne_nil {typing t : MessageTyping} (ht : t ∈ typing.nested ++ typing.mapEntries)
    (hinner : t.inner ≠ []) : .scope t.name t.inner ∈ typing.inner := by
  have hmem : .scope t.name t.inner ∈ (typing.nested ++ typing.mapEntries).flatMap items := by
    refine List.mem_flatMap.2 ⟨t, ht, ?_⟩
    rw [items_eq_of_inner_ne_nil hinner]
    simp
  rw [inner, List.append_assoc, ← List.flatMap_append]
  exact List.mem_append_right _ hmem

theorem exists_of_scope_mem_inner {typing : MessageTyping} {name : String} {items : List Item}
    (h : .scope name items ∈ typing.inner) :
    ∃ t ∈ typing.nested ++ typing.mapEntries, items = t.inner := by
  rw [inner, List.append_assoc, ← List.flatMap_append, List.mem_append] at h
  rcases h with h | h
  · simp at h
  · exact exists_of_scope_mem h

theorem names_headings_inner (typing : MessageTyping) :
    (Item.headings typing.inner).map Heading.name = typing.innerNames := by
  rw [headings_inner]
  simp only [List.map_append, List.map_map]
  rfl

/-- Nothing inside a message is declared twice exactly when the names inside it and inside
all messages that it holds differ. -/
theorem firstClash?_inner_eq_none_iff (typing : MessageTyping) :
    ∀ place, Item.firstClash? place [] typing.inner = none ↔
      ∀ held, typing.Holds held → held.innerNames.Nodup := by
  induction typing using nested_induction with
  | step typing ih =>
    intro place
    rw [Item.firstClash?_eq_none_iff typing.scopesFollow_inner, names_headings_inner]
    constructor
    · rintro ⟨hnodup, hscopes⟩ held hheld
      have hinside : ∀ t ∈ typing.nested ++ typing.mapEntries, t.Holds held →
          held.innerNames.Nodup := by
        intro t ht hheld
        refine (ih t ht (Dotted.join place t.name)).1 ?_ held hheld
        by_cases hinner : t.inner = []
        · rw [hinner]
          simp [Item.firstClash?]
        · exact hscopes _ _ (mem_inner_of_ne_nil ht hinner)
      cases hheld with
      | self => exact hnodup
      | nested ht hheld => exact hinside _ (List.mem_append_left _ ht) hheld
      | mapEntry ht hheld => exact hinside _ (List.mem_append_right _ ht) hheld
    · intro hnames
      refine ⟨hnames typing (.self typing), fun name inner hscope => ?_⟩
      obtain ⟨t, ht, rfl⟩ := exists_of_scope_mem_inner hscope
      refine (ih t ht _).2 fun held hheld => hnames held ?_
      rcases List.mem_append.1 ht with ht | ht
      · exact .nested ht hheld
      · exact .mapEntry ht hheld

end MessageTyping

namespace FileTyping

/-- The names at the top of a file. -/
def names (typing : FileTyping) : List String :=
  typing.enums.map (·.name) ++ typing.messages.map (·.name) ++ typing.services.map (·.name)

/-- The items of a file are checked along its paths. -/
theorem traced_items (typing : FileTyping) : Item.Traced typing.items typing.paths := by
  rw [items_eq, paths, MessageTyping.allPaths_eq_flatMap]
  refine ((Item.Traced.map (fun _ => rfl) _).append ?_).append (Item.Traced.map (fun _ => rfl) _)
  exact .flatMap fun t _ => t.traced_items

theorem firstClash?_items_eq_none_iff (typing : FileTyping) (place : String) :
    Item.firstClash? place [] typing.items = none ↔
      typing.names.Nodup ∧
        ∀ message ∈ typing.messages, ∀ held, message.Holds held → held.innerNames.Nodup := by
  have hnames : (Item.headings typing.items).map Heading.name = typing.names := by
    rw [items_eq, Item.headings_append, Item.headings_append, Item.headings_map_enumeration,
      MessageTyping.headings_flatMap_items, Item.headings_map_service]
    simp only [List.map_append, List.map_map]
    rfl
  rw [Item.firstClash?_eq_none_iff typing.scopesFollow_items, hnames]
  refine and_congr_right fun _ => ?_
  constructor
  · intro hscopes message hmessage
    refine (message.firstClash?_inner_eq_none_iff (Dotted.join place message.name)).1 ?_
    by_cases hinner : message.inner = []
    · rw [hinner]
      simp [Item.firstClash?]
    · refine hscopes _ _ ?_
      rw [items_eq, List.mem_append, List.mem_append]
      refine .inl (.inr (List.mem_flatMap.2 ⟨message, hmessage, ?_⟩))
      rw [MessageTyping.items_eq_of_inner_ne_nil hinner]
      simp
  · intro hmessages name inner hscope
    rw [items_eq, List.append_assoc, List.mem_append, List.mem_append] at hscope
    rcases hscope with hscope | hscope | hscope
    · simp at hscope
    · obtain ⟨message, hmessage, rfl⟩ := MessageTyping.exists_of_scope_mem hscope
      exact (message.firstClash?_inner_eq_none_iff _).2 (hmessages message hmessage)
    · simp at hscope

end FileTyping

/-! ## The text of a path -/

theorem Dotted.foldl_join_concat (place : String) (chain : List String) (name : String) :
    (chain ++ [name]).foldl Dotted.join place =
      ".".intercalate ((place :: chain).dropWhile (· = "") ++ [name]) := by
  rw [Dotted.foldl_join, ← List.cons_append, List.dropWhile_append]
  split
  · next hempty =>
    rw [List.isEmpty_iff.1 hempty]
    by_cases hname : name = "" <;> simp [hname]
  · rfl

namespace Outline

variable {package file : String} {typing : FileTyping}

theorem ofTyping_eq_error_iff {fault : Fault} :
    ofTyping package file typing = .error fault ↔
      ∃ place, Item.firstClash? package [] typing.items = some place ∧
        fault = .packageConflict place file := by
  unfold ofTyping
  cases Item.firstClash? package [] typing.items <;> simp [eq_comm]

theorem exists_ofTyping_iff :
    (∃ outline, ofTyping package file typing = .ok outline) ↔
      Item.firstClash? package [] typing.items = none := by
  unfold ofTyping
  cases Item.firstClash? package [] typing.items <;> simp

theorem firstClash?_eq_some_iff {place : String} :
    Item.firstClash? package [] typing.items = some place ↔
      ∃ path, FirstRepeat typing.paths path ∧ place = path.foldl Dotted.join package := by
  rw [typing.traced_items.clash_eq package [] [] .nil, Option.map_eq_some_iff]
  simp only [firstRepeat?_eq_some_iff, eq_comm (a := place)]

/-- **Which declarations have an outline.** There is one exactly when the enums, messages
and services at the top differ in their names, and so do, in every message at every
depth, the enums, messages and map entries right inside it. Otherwise the fault is that
of the first path which has occurred before, and its text is the package, the names of the
messages around and the name itself with dots between them; an empty package is left
out, and so are then the empty names at the front of those messages. -/
theorem refused_for_first_repeat (package file : String) (typing : FileTyping) :
    ((∃ outline, ofTyping package file typing = .ok outline) ↔
      typing.names.Nodup ∧
        ∀ message ∈ typing.messages, ∀ held, message.Holds held → held.innerNames.Nodup) ∧
    ∀ fault, ofTyping package file typing = .error fault ↔
      ∃ chain name, FirstRepeat typing.paths (chain ++ [name]) ∧
        fault = .packageConflict
          (".".intercalate ((package :: chain).dropWhile (· = "") ++ [name])) file := by
  constructor
  · rw [exists_ofTyping_iff]
    exact typing.firstClash?_items_eq_none_iff package
  · intro fault
    rw [ofTyping_eq_error_iff]
    simp only [firstClash?_eq_some_iff]
    constructor
    · rintro ⟨place, ⟨path, hrepeat, rfl⟩, rfl⟩
      have hpath : path ∈ typing.paths := by
        obtain ⟨before, after, hsplit, -, -⟩ := hrepeat
        simp [hsplit]
      obtain ⟨item, -, rest, rfl⟩ := typing.traced_items.heads.exists_name path hpath
      have hlast := List.dropLast_concat_getLast (List.cons_ne_nil item.name rest)
      rw [← hlast] at hrepeat ⊢
      exact ⟨_, _, hrepeat, by rw [Dotted.foldl_join_concat]⟩
    · rintro ⟨chain, name, hrepeat, rfl⟩
      exact ⟨_, ⟨_, hrepeat, rfl⟩, by rw [Dotted.foldl_join_concat]⟩

end Outline

/-- A message without a name that declares an enum twice. -/
def Sample.nameless : FileTyping where
  messages := [{ name := "", enums := [{ name := "Mode" }, { name := "Mode" }] }]

/-- Without a package, a message that has no name leaves no dot in the path of a fault. -/
theorem Outline.conflict_path_not_plain :
    ¬ ∀ (package file : String) (typing : FileTyping) (fault : Fault),
      Outline.ofTyping package file typing = .error fault →
        ∃ path, FirstRepeat typing.paths path ∧
          fault = .packageConflict
            (".".intercalate ((if package = "" then [] else [package]) ++ path)) file := by
  intro h
  have hfault : Outline.ofTyping "" "mode.proto" Sample.nameless =
      .error (.packageConflict "Mode" "mode.proto") := rfl
  have hrepeat : firstRepeat? [] Sample.nameless.paths = some ["", "Mode"] := by decide
  obtain ⟨path, hpath, heq⟩ := h _ _ _ _ hfault
  rw [← firstRepeat?_eq_some_iff, hrepeat, Option.some.injEq] at hpath
  subst hpath
  simp at heq

end ProtoTypings
