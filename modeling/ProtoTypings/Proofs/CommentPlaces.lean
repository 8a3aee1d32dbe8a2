import ProtoTypings.Proofs.LocatedElements
/-!
# Comments stand at their own declarations

The comments of a file are kept under paths. Typing reads them while it goes over
the descriptors, before map entries change places and after aliases are dropped.
Here the places of an outline are matched with the elements of its file: each place
shows the comments at the path of its own element.

* `Item.places`: the places below a chain, each with its comments.
* `Message.places_perm`, `File.TypingRun.places_perm`: the places of a message and
  of a file are those of their elements.
* `Outline.CommentsPlaced`: what a reader of the outline may rely on.
-/
namespace ProtoTypings

/-! ## Places of an outline -/

namespace Item

mutual

/-- The places of an item in the scope that `chain` leads to, with their comments. -/
def places (chain : List String) : Item → List (Place × Comment)
  | interface name leading properties =>
    (.interface (chain ++ [name]), { leading }) :: properties.zipIdx.map fun (property, index) =>
      (.property (chain ++ [name]) index property.name, property.comment)
  | enumeration typing =>
    (.enumeration (chain ++ [typing.name]), { leading := typing.leading }) ::
      typing.enumerators.map fun e =>
        (.enumerator (chain ++ [typing.name]) e.number e.name, e.comment)
  | service typing =>
    (.service (chain ++ [typing.name]), { leading := typing.leading }) ::
      typing.operations.zipIdx.map fun (operation, index) =>
        (.operation (chain ++ [typing.name]) index operation.name, operation.comment)
  | scope name items => allPlaces (chain ++ [name]) items

def allPlaces (chain : List String) : List Item → List (Place × Comment)
  | [] => []
  | item :: rest => places chain item ++ allPlaces chain rest

end

theorem allPlaces_eq_flatMap (chain : List String) (items : List Item) :
    allPlaces chain items = items.flatMap (places chain) := by
  induction items with
  | nil => rfl
  | cons item rest ih => rw [allPlaces, ih, List.flatMap_cons]

end Item

def Outline.places (outline : Outline) : List (Place × Comment) :=
  Item.allPlaces [] outline.items

/-- The place of an element, with what it shows of the comments at its path. -/
def Element.shown (locations : List Location) (e : Element) : Place × Comment :=
  (e.place, e.place.shown (Location.commentAt locations e.path))

/-- The places of a message: those of its interface, and those inside. -/
theorem MessageTyping.allPlaces_items (chain : List String) (typing : MessageTyping) :
    Item.allPlaces chain typing.items =
      Item.places chain (.interface typing.name typing.leading typing.properties) ++
        Item.allPlaces (chain ++ [typing.name]) typing.inner := by
  by_cases h : typing.inner = []
  · rw [items_eq_of_inner_eq_nil h, h]
    rfl
  · rw [items_eq_of_inner_ne_nil h]
    simp [Item.allPlaces, Item.places]

theorem MessageTyping.allPlaces_inner (chain : List String) (typing : MessageTyping) :
    Item.allPlaces chain typing.inner =
      typing.enums.flatMap (fun enum => Item.places chain (.enumeration enum)) ++
        (typing.nested ++ typing.mapEntries).flatMap fun t => Item.allPlaces chain t.items := by
  simp only [Item.allPlaces_eq_flatMap]
  rw [inner, List.flatMap_append, List.flatMap_append, List.flatMap_map, List.flatMap_assoc,
    List.flatMap_assoc, List.flatMap_append, List.append_assoc]

/-! ## Lists that correspond -/

section lists
variable {α β γ : Type}

/-- Where results come one by one from the elements of a list, their positions are
those of the elements. -/
theorem map_zipIdx_of_forall₂ {R : α × Nat → β → Prop} {f : α × Nat → γ} {g : β × Nat → γ}
    (hfg : ∀ x y, R x y → f x = g (y, x.2)) (xs : List α) :
    ∀ (ys : List β) (start : Nat), List.Forall₂ R (xs.zipIdx start) ys →
      (xs.zipIdx start).map f = (ys.zipIdx start).map g := by
  induction xs with
  | nil =>
    intro ys start h
    cases h
    rfl
  | cons x xs ih =>
    intro ys start h
    rw [List.zipIdx_cons] at h
    obtain ⟨y, ys', hxy, hrest, rfl⟩ := List.forall₂_cons_left_iff.1 h
    rw [List.zipIdx_cons, List.zipIdx_cons, List.map_cons, List.map_cons, hfg _ _ hxy,
      ih ys' (start + 1) hrest]

theorem perm_flatMap_of_forall₂ {R : α → β → Prop} {xs : List α} {ys : List β} {f : α → List γ}
    {g : β → List γ} (h : List.Forall₂ R xs ys)
    (hfg : ∀ x ∈ xs, ∀ y, R x y → (g y).Perm (f x)) :
    (ys.flatMap g).Perm (xs.flatMap f) := by
  refine (Multiset.coe_eq_coe.1 (Multiset.rel_eq.1 (rel_flatMap h fun x hx y hxy => ?_))).symm
  exact Multiset.rel_eq.2 (Multiset.coe_eq_coe.2 (hfg x hx y hxy).symm)

end lists

/-! ## Declarations -/

section declarations
variable {context : TypingContext} {catalog : Catalog} {last : Resolver}

theorem EnumType.places_typing (enum : EnumType) (chain : List String) (outer : String)
    (path : List Int32) :
    Item.places chain (.enumeration (enum.typing context outer path)) =
      (enum.elements firstValues chain path).map (Element.shown context.locations) := by
  simp only [Item.places, EnumType.typing, EnumType.elements, EnumValue.firstOfNumber_zipIdx,
    List.map_cons, List.map_map]
  rfl

theorem EnumType.places_allTypings (enums : List EnumType) (chain : List String) (outer : String)
    (path : List Int32) (step : PathStep) :
    (allTypings context outer path step enums).flatMap
        (fun typing => Item.places chain (.enumeration typing)) =
      (enums.zipIdx.flatMap fun enum =>
        enum.1.elements firstValues chain (step.child path enum.2)).map
          (Element.shown context.locations) := by
  rw [allTypings, List.flatMap_map, List.map_flatMap]
  simp only [EnumType.places_typing]

/-- The interface of a message has the comments of the message and of its fields. -/
theorem Message.places_interface {m : Message} {outer : String} {path : List Int32}
    {typing : MessageTyping} (chain : List String)
    (h : ResolveM.Yielded catalog last (m.typing context outer path) typing) :
    Item.places chain (.interface typing.name typing.leading typing.properties) =
      (⟨.interface (chain ++ [m.name]), path⟩ ::
        m.fields.zipIdx.map (Field.element context.settings (chain ++ [m.name]) path)).map
          (Element.shown context.locations) := by
  obtain ⟨results, _, hresults, -, rfl⟩ := yielded_typing h
  have hproperties : (m.fields.zipIdx.map fun field =>
      (Place.property (chain ++ [m.name]) field.2 (context.name .field field.1.name),
        context.comment (PathStep.messageField.child path field.2))) =
      results.zipIdx.map fun result =>
        (.property (chain ++ [m.name]) result.2 result.1.1.name, result.1.1.comment) := by
    refine map_zipIdx_of_forall₂ (fun field result hresult => ?_) m.fields results 0 hresults
    obtain ⟨hname, hcomment, -⟩ := Field.yielded_property hresult
    rw [hname, hcomment]
  rw [Item.places, List.zipIdx_map, List.map_map, List.map_cons, List.map_map]
  exact congrArg _ hproperties.symm

/-- **Places of a message.** They are those of its elements without aliases, at every
depth and whatever map entries change places. -/
theorem Message.places_perm {file package : String} (m : Message) :
    ∀ inner outer chain path typing, ((m.types file package inner).map (·.fullName)).Nodup →
      ResolveM.Yielded catalog last (m.typing context outer path) typing →
      (Item.allPlaces chain typing.items).Perm
        ((m.elements context.settings EnumType.firstValues chain path).map
          (Element.shown context.locations)) := by
  induction m using Message.nested_induction with
  | step m ih =>
    intro inner outer chain path typing hnodup hyielded
    have hnames := (inner_names_nodup hnodup).of_append_left
    obtain ⟨typings, hperm, htypings⟩ := yielded_inner hnames hyielded
    obtain ⟨_, _, -, -, htyping⟩ := yielded_typing hyielded
    have hnested : ((typing.nested ++ typing.mapEntries).flatMap fun t =>
        Item.allPlaces (chain ++ [m.name]) t.items).Perm
        ((m.nested.zipIdx.flatMap fun n =>
          n.1.elements context.settings EnumType.firstValues (chain ++ [m.name])
            (PathStep.messageNested.child path n.2)).map (Element.shown context.locations)) := by
      refine (hperm.flatMap_right _).trans ?_
      rw [List.map_flatMap]
      refine perm_flatMap_of_forall₂ htypings fun n hn t ht => ?_
      have hmem := List.fst_mem_of_mem_zipIdx hn
      exact ih n.1 hmem _ _ _ _ t (nodup_of_mem_nested hnodup hmem) ht
    have hname : typing.name = m.name := by rw [htyping]
    have henums : typing.enums =
        EnumType.allTypings context (Dotted.join outer m.name) path .messageEnum m.enums := by
      rw [htyping]
    rw [MessageTyping.allPlaces_items, MessageTyping.allPlaces_inner,
      places_interface chain hyielded, hname, henums, EnumType.places_allTypings, elements_eq,
      List.map_append, List.map_append, List.append_assoc]
    exact (hnested.append_left _).append_left _

theorem Service.places_typing {package : String} {path : List Int32} {service : Service}
    {typing : ServiceTyping}
    (h : ResolveM.Yielded catalog last (service.typing context package path) typing) :
    Item.places [] (.service typing) =
      (service.elements context.settings path).map (Element.shown context.locations) := by
  obtain ⟨hname, hoperations⟩ := Service.yielded_typing h
  have hmembers : (service.methods.zipIdx.map fun method =>
      (Place.operation [service.interfaceName] method.2 (context.name .method method.1.name),
        context.comment (PathStep.serviceMethod.child path method.2))) =
      typing.operations.zipIdx.map fun operation =>
        (.operation [service.interfaceName] operation.2 operation.1.name, operation.1.comment) := by
    refine map_zipIdx_of_forall₂ (fun method operation hoperation => ?_) service.methods
      typing.operations 0 hoperations
    rw [(Method.yielded_operation hoperation).1, Method.comment_of_yielded hoperation]
  rw [Item.places, hname, Service.leading_of_yielded h, Service.elements, List.map_cons,
    List.map_map]
  exact congrArg _ hmembers.symm

end declarations

/-- **Places of a file.** -/
theorem File.TypingRun.places_perm {settings : Settings} {file : File} {r mid last : Resolver}
    {typing : FileTyping} (run : file.TypingRun settings r mid last typing)
    (hnodup : (file.types.map (·.fullName)).Nodup) :
    (Item.allPlaces [] typing.items).Perm
      ((file.elements settings EnumType.firstValues).map (Element.shown file.locations)) := by
  have hservices : (typing.services.flatMap fun t => Item.places [] (.service t)).Perm
      ((file.services.zipIdx.flatMap fun service =>
        service.1.elements settings (PathStep.fileService.child [] service.2)).map
          (Element.shown file.locations)) := by
    rw [List.map_flatMap]
    exact perm_flatMap_of_forall₂ run.services fun service _ t ht =>
      .of_eq (Service.places_typing ht)
  have hmessages : (typing.messages.flatMap fun t => Item.allPlaces [] t.items).Perm
      ((file.messages.zipIdx.flatMap fun m =>
        m.1.elements settings EnumType.firstValues [] (PathStep.fileMessage.child [] m.2)).map
          (Element.shown file.locations)) := by
    rw [File.types_eq, List.map_append] at hnodup
    rw [List.map_flatMap]
    refine perm_flatMap_of_forall₂ run.messages fun m hm t ht => ?_
    exact m.1.places_perm _ _ _ _ t
      (nodup_map_of_mem hnodup.of_append_left (List.fst_mem_of_mem_zipIdx hm)) ht
  simp only [Item.allPlaces_eq_flatMap] at hmessages
  rw [Item.allPlaces_eq_flatMap, FileTyping.items_eq, List.flatMap_append, List.flatMap_append,
    List.flatMap_map, List.flatMap_map, List.flatMap_assoc, run.enums,
    EnumType.places_allTypings, File.elements,
    Message.allElements_eq_flatMap, List.map_append, List.map_append]
  exact (hmessages.append_left _).append hservices

/-! ## Comments -/

namespace Location

/-- Whether a location has a comment that is not empty. -/
def HasText (location : Location) : Prop :=
  (∃ text, location.leading = some text ∧ text ≠ "") ∨
    ∃ text, location.trailing = some text ∧ text ≠ ""

/-- The comments at a path are those of the first location there that has any, where
an empty comment counts as none. -/
def ReadsAt (locations : List Location) (path : List Int32) (comment : Comment) : Prop :=
  ((∀ l ∈ locations, l.path = path → ¬ l.HasText) ∧ comment = {}) ∨
    ∃ init location rest, locations = init ++ location :: rest ∧
      (∀ l ∈ init, l.path = path → ¬ l.HasText) ∧ location.path = path ∧ location.HasText ∧
      (∀ text, comment.leading = some text ↔ location.leading = some text ∧ text ≠ "") ∧
      ∀ text, comment.trailing = some text ↔ location.trailing = some text ∧ text ≠ ""

theorem nonempty_eq_some_iff {comment : Option String} {text : String} :
    Comment.nonempty comment = some text ↔ comment = some text ∧ text ≠ "" := by
  simp [Comment.nonempty]

theorem hasText_iff {location : Location} : location.HasText ↔ location.comment ≠ {} := by
  have hnone : location.comment = {} ↔
      Comment.nonempty location.leading = none ∧ Comment.nonempty location.trailing = none := by
    simp [Location.comment]
  rw [Ne, hnone, not_and_or, ← Ne, ← Ne, Option.ne_none_iff_exists', Option.ne_none_iff_exists']
  simp only [nonempty_eq_some_iff]
  rfl

theorem readsAt_commentAt (locations : List Location) (path : List Int32) :
    ReadsAt locations path (commentAt locations path) := by
  unfold commentAt
  cases hfound : locations.find? fun l => l.path = path ∧ l.comment ≠ {} with
  | none =>
    simp only [List.find?_eq_none, decide_eq_true_eq, not_and] at hfound
    refine .inl ⟨fun l hl hpath => ?_, rfl⟩
    rw [hasText_iff]
    exact hfound l hl hpath
  | some location =>
    rw [List.find?_eq_some_iff_append] at hfound
    obtain ⟨htext, init, rest, hlocations, hinit⟩ := hfound
    simp only [decide_eq_true_eq] at htext
    refine .inr ⟨init, location, rest, hlocations, fun l hl hpath => ?_, htext.1,
      hasText_iff.2 htext.2, fun _ => nonempty_eq_some_iff, fun _ => nonempty_eq_some_iff⟩
    have hother := hinit l hl
    simp only [Bool.not_eq_true', decide_eq_false_iff_not, not_and] at hother
    rw [hasText_iff]
    exact hother hpath

theorem exists_hasText_of_commentAt {locations : List Location} {path : List Int32}
    (h : commentAt locations path ≠ {}) : ∃ l ∈ locations, l.HasText ∧ l.path = path := by
  rcases readsAt_commentAt locations path with ⟨-, hempty⟩ | ⟨init, l, rest, hlocations, -, hl⟩
  · exact absurd hempty h
  · exact ⟨l, by simp [hlocations], hl.2.1, hl.1⟩

end Location

theorem Place.shown_empty (place : Place) : place.shown {} = {} := by
  cases place <;> rfl

/-- If all comments of a file are at one path, only elements at that path show any. -/
theorem Element.path_of_shown {locations : List Location} {path : List Int32}
    (hpath : ∀ l ∈ locations, l.HasText → l.path = path) {e : Element}
    (h : (e.shown locations).2 ≠ {}) : e.path = path := by
  have hcomment : Location.commentAt locations e.path ≠ {} := by
    intro hempty
    rw [Element.shown, hempty, Place.shown_empty] at h
    exact h rfl
  obtain ⟨l, hl, htext, heq⟩ := Location.exists_hasText_of_commentAt hcomment
  rw [← heq, hpath l hl htext]

/-- If all comments of a file are at one path, one of the elements with different
paths shows any. -/
theorem Element.length_filter_shown {locations : List Location} {path : List Int32}
    (hpath : ∀ l ∈ locations, l.HasText → l.path = path) {elements : List Element}
    (hnodup : (elements.map Element.path).Nodup) :
    ((elements.map (Element.shown locations)).filter fun place => place.2 ≠ {}).length ≤ 1 := by
  rw [List.filter_map, List.length_map]
  generalize hkept : elements.filter _ = kept
  have hsublist : kept.Sublist elements := hkept ▸ List.filter_sublist
  have hsame : ∀ found ∈ kept.map Element.path, found = path := by
    intro found hfound
    obtain ⟨e, he, rfl⟩ := List.mem_map.1 hfound
    rw [← hkept, List.mem_filter] at he
    exact Element.path_of_shown hpath (by simpa using he.2)
  have hpaths := (hsublist.map Element.path).nodup hnodup
  rw [List.eq_replicate_of_mem hsame, List.nodup_replicate, List.length_map] at hpaths
  exact hpaths

/-- The comments of a file stand at their own declarations. -/
structure Outline.CommentsPlaced (settings : Settings) (file : File) (outline : Outline) :
    Prop where
  /-- The comments at a path are those of the first location there that has any. -/
  comments : ∀ path,
    Location.ReadsAt file.locations path (Location.commentAt file.locations path)
  /-- Every place shows the comments at the path of its own element. -/
  places : outline.places.Perm
    ((file.elements settings EnumType.firstValues).map (Element.shown file.locations))
  /-- These elements have different places. -/
  places_nodup : ((file.elements settings EnumType.firstValues).map Element.place).Nodup
  /-- All elements, aliases with them, have different paths. -/
  paths_nodup : ((file.elements settings EnumType.allValues).map Element.path).Nodup
  elements_sublist : (file.elements settings EnumType.firstValues).Sublist
    (file.elements settings EnumType.allValues)
  /-- The path of an alias is the path of no place. -/
  alias_path : ∀ e ∈ file.elements settings EnumType.allValues,
    e ∉ file.elements settings EnumType.firstValues →
    e.path ∉ (file.elements settings EnumType.firstValues).map Element.path
  /-- If all comments are at one path, at most one place shows any. -/
  at_most_one : ∀ path, (∀ l ∈ file.locations, l.HasText → l.path = path) →
    (outline.places.filter fun place => place.2 ≠ {}).length ≤ 1
  /-- If moreover that path is the path of no place, no place shows any. -/
  none_elsewhere : ∀ path, (∀ l ∈ file.locations, l.HasText → l.path = path) →
    path ∉ (file.elements settings EnumType.firstValues).map Element.path →
    ∀ place ∈ outline.places, place.2 = {}

namespace Sample

/-- A file with a map entry before another message, and an alias before another
value. All of these have comments. -/
def ledger : File where
  name := some "ledger.proto"
  messages :=
    [{ name := "Book"
       fields := [{ name := "pages", number := some 1, label := .repeated, typeCode := some 11
                    typeName := "PagesEntry" }]
       nested :=
        [{ name := "PagesEntry"
           fields := [{ name := "key", number := some 1, typeCode := some 5 },
                      { name := "value", number := some 2, typeCode := some 11
                        typeName := "Page" }]
           isMapEntry := true },
         { name := "Page" }]
       enums := [{ name := "Side", values := [{ name := "DEBIT" }, { name := "OWED" },
                                              { name := "CREDIT", number := some 1 }] }] }]
  locations :=
    [{ path := [4, 0, 3, 0], leading := some "" },
     { path := [4, 0, 3, 0], leading := some " An entry.\n" },
     { path := [4, 0, 3, 1], leading := some " A page.\n", trailing := some " not shown" },
     { path := [4, 0, 4, 0, 2, 1], leading := some " An alias.\n" },
     { path := [4, 0, 4, 0, 2, 2], trailing := some " after an alias" }]

def ledgerCatalog : Catalog := ⟨[ledger], ledger.types⟩

end Sample

end ProtoTypings
