import ProtoTypings.Proofs.Lockstep
import ProtoTypings.Proofs.OutlineNodes
import ProtoTypings.Proofs.TypingRun
/-!
# Outlines under two settings

How two outlines of one file may differ when they are made with the settings
`a` and `b`. They have the same items in the same scopes. Only three things in
an item depend on the settings: the names of properties and operations, which
are those of fields and methods in the casing of the settings, the type of
64-bit integers, and whether streams are iterators.

**Results.**
* `Item.Counterpart`: the relation between two items. Each interface is tied to
  its message and each service to its descriptor, member by member.
* `Item.firstClash?_eq`: counterparts clash alike.
* `Item.Counterpart.eq`: settings that do not differ in those three things make
  the same items.
* `MessageTyping.forall₂_items`: the items of a message correspond if the parts
  of the message do.
-/
namespace ProtoTypings

/-! ## Types -/

def FieldType.isInt64 : FieldType → Bool
  | .int64 | .uint64 | .sint64 | .fixed64 | .sfixed64 => true
  | _ => false

def Settings.int64Type (settings : Settings) : ValueType :=
  if settings.int64AsText then .string else .number

/-- The types that `a` and `b` give to the same values, which are or hold 64-bit
integers or not. -/
inductive ValueType.Counterpart (a b : Settings) : Bool → ValueType → ValueType → Prop
  | same (type : ValueType) : Counterpart a b false type type
  | int64 : Counterpart a b true a.int64Type b.int64Type
  | array {isInt64 : Bool} {type type' : ValueType} :
      Counterpart a b isInt64 type type' → Counterpart a b isInt64 (.array type) (.array type')
  | map {isInt64 : Bool} {type type' : ValueType} :
      Counterpart a b isInt64 type type' → Counterpart a b isInt64 (.map type) (.map type')

/-- Whether the values of a field, or those of a map, are 64-bit integers. -/
def Field.holdsInt64 (catalog : Catalog) (site : FieldSite) (field : Field) : Bool :=
  match field.carrier? catalog site with
  | some carrier =>
    match carrier.kind catalog site with
    | .ok kind => kind.isInt64
    | .error _ => false
  | none => false

/-! ## Members -/

/-- How a casing spells the name of a field or a method. -/
inductive Casing.Spells : Casing → String → String → Prop
  | verbatim (identifier : String) : Spells .verbatim identifier identifier
  | camel (identifier : String) : Spells .camel identifier (lowerCamel identifier)

theorem Casing.spells_iff {casing : Casing} {identifier name : String} :
    casing.Spells identifier name ↔ name = casing.apply identifier := by
  constructor
  · intro h
    cases h <;> rfl
  · rintro rfl
    cases casing
    · exact .verbatim identifier
    · exact .camel identifier

theorem Casing.spells_apply (casing : Casing) (identifier : String) :
    casing.Spells identifier (casing.apply identifier) :=
  Casing.spells_iff.2 rfl

/-- The properties that `a` and `b` make of a field. -/
structure Property.Counterpart (catalog : Catalog) (site : FieldSite) (a b : Settings)
    (field : Field) (p p' : Property) : Prop where
  name_left : a.casing.Spells field.name p.name
  name_right : b.casing.Spells field.name p'.name
  type : ValueType.Counterpart a b (field.holdsInt64 catalog site) p.type p'.type
  comment : p'.comment = p.comment

/-- The operations that `a` and `b` make of a method. -/
structure Operation.Counterpart (a b : Settings) (method : Method) (o o' : Operation) : Prop where
  name_left : a.casing.Spells method.name o.name
  name_right : b.casing.Spells method.name o'.name
  asyncIterators : o.type.asyncIterators = a.asyncIterators
  type : o'.type = { o.type with asyncIterators := b.asyncIterators }
  comment : o'.comment = o.comment

/-- Settings that make the same declarations. -/
structure Settings.TypeAlike (a b : Settings) : Prop where
  casing : b.casing = a.casing
  int64AsText : b.int64AsText = a.int64AsText
  asyncIterators : b.asyncIterators = a.asyncIterators

section alike
variable {a b : Settings} (h : a.TypeAlike b)
include h

theorem ValueType.Counterpart.eq {isInt64 : Bool} {type type' : ValueType}
    (hc : ValueType.Counterpart a b isInt64 type type') : type' = type := by
  induction hc with
  | same type => rfl
  | int64 => simp [Settings.int64Type, h.int64AsText]
  | array _ ih => rw [ih]
  | map _ ih => rw [ih]

theorem Property.Counterpart.eq {catalog : Catalog} {site : FieldSite} {field : Field}
    {p p' : Property} (hc : Property.Counterpart catalog site a b field p p') : p' = p := by
  have hname : p'.name = p.name := by
    rw [Casing.spells_iff.1 hc.name_right, Casing.spells_iff.1 hc.name_left, h.casing]
  have htype : p'.type = p.type := hc.type.eq h
  have hcomment : p'.comment = p.comment := hc.comment
  cases p
  cases p'
  simp_all

theorem Operation.Counterpart.eq {method : Method} {o o' : Operation}
    (hc : Operation.Counterpart a b method o o') : o' = o := by
  have hname : o'.name = o.name := by
    rw [Casing.spells_iff.1 hc.name_right, Casing.spells_iff.1 hc.name_left, h.casing]
  have htype : o'.type = o.type := by rw [hc.type, h.asyncIterators, ← hc.asyncIterators]
  have hcomment : o'.comment = o.comment := hc.comment
  cases o
  cases o'
  simp_all

end alike

/-! ## Items -/

mutual

/-- A message and the messages inside it, each with the scope of its fields. -/
def Message.withScopes (outer : String) : Message → List (String × Message)
  | .mk name fields nested enums isMapEntry =>
    (Dotted.join outer name, .mk name fields nested enums isMapEntry) ::
      Message.allWithScopes (Dotted.join outer name) nested

def Message.allWithScopes (outer : String) : List Message → List (String × Message)
  | [] => []
  | message :: rest => Message.withScopes outer message ++ Message.allWithScopes outer rest

end

/-- The messages of a file at every depth, each with the scope of its fields. -/
def File.withScopes (file : File) : List (String × Message) :=
  Message.allWithScopes file.packageName file.messages

theorem Message.allWithScopes_eq_flatMap (outer : String) (ms : List Message) :
    Message.allWithScopes outer ms = ms.flatMap (Message.withScopes outer) := by
  induction ms with
  | nil => rfl
  | cons m ms ih => rw [Message.allWithScopes, ih, List.flatMap_cons]

theorem Message.withScopes_eq (outer : String) (m : Message) :
    m.withScopes outer = (Dotted.join outer m.name, m) ::
      m.nested.flatMap (Message.withScopes (Dotted.join outer m.name)) := by
  obtain ⟨name, fields, nested, enums, isMapEntry⟩ := m
  rw [Message.withScopes, Message.allWithScopes_eq_flatMap]

/-- The items that `a` and `b` make of one declaration of a file. -/
inductive Item.Counterpart (catalog : Catalog) (file : File) (a b : Settings) : Item → Item → Prop
  | interface {scope : String} {m : Message} {leading : Option String} {ps ps' : List Property} :
      (scope, m) ∈ file.withScopes →
      Forall₃ (Property.Counterpart catalog ⟨scope, file.path⟩ a b) m.fields ps ps' →
      Counterpart catalog file a b (.interface m.name leading ps) (.interface m.name leading ps')
  | enumeration (typing : EnumTyping) :
      Counterpart catalog file a b (.enumeration typing) (.enumeration typing)
  | service {service : Service} {fullName : String} {leading : Option String}
      {os os' : List Operation} :
      service ∈ file.services → Forall₃ (Operation.Counterpart a b) service.methods os os' →
      Counterpart catalog file a b (.service ⟨service.name ++ "Service", fullName, leading, os⟩)
        (.service ⟨service.name ++ "Service", fullName, leading, os'⟩)
  | scope {name : String} {items items' : List Item} :
      List.Forall₂ (Counterpart catalog file a b) items items' →
      Counterpart catalog file a b (.scope name items) (.scope name items')

namespace Item

mutual

theorem scope_induction {motive : Item → Prop}
    (interface : ∀ name leading properties, motive (.interface name leading properties))
    (enumeration : ∀ typing, motive (.enumeration typing))
    (service : ∀ typing, motive (.service typing))
    (scope : ∀ name items, (∀ item ∈ items, motive item) → motive (.scope name items)) :
    ∀ item : Item, motive item
  | .interface name leading properties => interface name leading properties
  | .enumeration typing => enumeration typing
  | .service typing => service typing
  | .scope name items =>
    scope name items (forall_scope interface enumeration service scope items)

theorem forall_scope {motive : Item → Prop}
    (interface : ∀ name leading properties, motive (.interface name leading properties))
    (enumeration : ∀ typing, motive (.enumeration typing))
    (service : ∀ typing, motive (.service typing))
    (scope : ∀ name items, (∀ item ∈ items, motive item) → motive (.scope name items)) :
    ∀ items : List Item, ∀ item ∈ items, motive item
  | [] => List.forall_mem_nil _
  | item :: rest =>
    List.forall_mem_cons.2 ⟨scope_induction interface enumeration service scope item,
      forall_scope interface enumeration service scope rest⟩

end

variable {catalog : Catalog} {file : File} {a b : Settings}

theorem Counterpart.name_eq {item item' : Item} (h : Counterpart catalog file a b item item') :
    item'.name = item.name := by
  cases h <;> rfl

theorem Counterpart.extendsItem_eq {item item' before before' : Item}
    (h : Counterpart catalog file a b item item')
    (hbefore : Counterpart catalog file a b before before') :
    item'.extendsItem before' = item.extendsItem before := by
  cases h <;> cases hbefore <;> rfl

/-- Whether a name is repeated does not depend on members. -/
theorem Counterpart.clashes_eq {item item' : Item} (h : Counterpart catalog file a b item item')
    {before before' : List Item}
    (hbefore : List.Forall₂ (Counterpart catalog file a b) before before') :
    item'.clashes before' = item.clashes before := by
  unfold clashes
  induction hbefore with
  | nil => rfl
  | @cons first first' rest rest' hfirst _ ih =>
    rw [List.find?_cons, List.find?_cons, hfirst.name_eq, h.name_eq] at *
    by_cases hname : first.name = item.name
    · simp [hname, h.extendsItem_eq hfirst]
    · simpa [hname] using ih

theorem firstClash?_eq_of_forall {items : List Item}
    (hinner : ∀ item ∈ items, ∀ item', Counterpart catalog file a b item item' → ∀ path,
      innerClash? path item' = innerClash? path item) :
    ∀ {items'}, List.Forall₂ (Counterpart catalog file a b) items items' → ∀ {path before before'},
      List.Forall₂ (Counterpart catalog file a b) before before' →
      firstClash? path before' items' = firstClash? path before items := by
  induction items with
  | nil =>
    intro items' h path before before' _
    cases h
    rfl
  | cons item rest ih =>
    intro items' h path before before' hbefore
    obtain ⟨hitem, hrest⟩ := List.forall_mem_cons.1 hinner
    cases h with
    | cons hfirst hothers =>
      unfold firstClash?
      rw [hfirst.clashes_eq hbefore, hfirst.name_eq, hitem _ hfirst,
        ih hrest hothers (.cons hfirst hbefore)]

theorem Counterpart.innerClash?_eq (item : Item) :
    ∀ item', Counterpart catalog file a b item item' → ∀ path,
      innerClash? path item' = innerClash? path item := by
  induction item using scope_induction with
  | interface name leading properties => intro item' h path; cases h; rfl
  | enumeration typing => intro item' h path; cases h; rfl
  | service typing => intro item' h path; cases h; rfl
  | scope name items ih =>
    intro item' h path
    cases h with
    | scope hitems =>
      unfold innerClash?
      exact firstClash?_eq_of_forall ih hitems .nil

/-- **Counterparts clash alike**, in every scope and at the same name. -/
theorem firstClash?_eq {items items' : List Item}
    (h : List.Forall₂ (Counterpart catalog file a b) items items') (path : String) :
    firstClash? path [] items' = firstClash? path [] items :=
  firstClash?_eq_of_forall (fun item _ => Counterpart.innerClash?_eq item) h .nil

theorem Counterpart.eq (hsettings : a.TypeAlike b) (item : Item) :
    ∀ item', Counterpart catalog file a b item item' → item' = item := by
  induction item using scope_induction with
  | interface name leading properties =>
    intro item' h
    cases h with
    | interface _ hproperties => rw [Forall₃.eq_of (fun _ _ _ h => h.eq hsettings) hproperties]
  | enumeration typing => intro item' h; cases h; rfl
  | service typing =>
    intro item' h
    cases h with
    | service _ hoperations => rw [Forall₃.eq_of (fun _ _ _ h => h.eq hsettings) hoperations]
  | scope name items ih =>
    intro item' h
    cases h with
    | @scope _ _ items' hitems =>
      have heq : items' = items := by
        induction hitems with
        | nil => rfl
        | cons hitem _ ihrest =>
          obtain ⟨hfirst, hrest⟩ := List.forall_mem_cons.1 ih
          rw [hfirst _ hitem, ihrest hrest]
      rw [heq]

end Item

/-! ## The items of a message -/

/-- What a test finds in one list and its like finds in the other correspond. -/
theorem rel_find?_of_forall₂ {α β : Type} {R : α → β → Prop} {xs : List α} {ys : List β}
    {p : α → Bool} {q : β → Bool} (h : List.Forall₂ R xs ys) (hpq : ∀ x y, R x y → q y = p x) :
    Option.Rel R (xs.find? p) (ys.find? q) := by
  induction h with
  | nil => exact .none
  | @cons x y xs ys hxy _ ih =>
    rw [List.find?_cons, List.find?_cons, hpq x y hxy]
    cases p x with
    | true => exact .some hxy
    | false => exact ih

namespace MessageTyping

variable {catalog : Catalog} {file : File} {a b : Settings}

/-- The typings that `a` and `b` make of one message of a file. -/
structure Counterpart (catalog : Catalog) (file : File) (a b : Settings) (t t' : MessageTyping) :
    Prop where
  fullName : t'.fullName = t.fullName
  items : List.Forall₂ (Item.Counterpart catalog file a b) t.items t'.items

theorem forall₂_find? {ts ts' : List MessageTyping}
    (h : List.Forall₂ (Counterpart catalog file a b) ts ts') (name : String) :
    Option.Rel (Counterpart catalog file a b) (ts.find? (·.fullName = name))
      (ts'.find? (·.fullName = name)) :=
  rel_find?_of_forall₂ h fun t t' ht => by rw [ht.fullName]

/-- Entry types are placed alike, since their order depends on names alone. -/
theorem forall₂_placeEntries {ts ts' : List MessageTyping}
    (h : List.Forall₂ (Counterpart catalog file a b) ts ts') (used : List String) :
    List.Forall₂ (Counterpart catalog file a b) (placeEntries used ts) (placeEntries used ts') := by
  unfold placeEntries
  refine List.rel_append (List.rel_filterMap (R := Eq) ?_ (List.forall₂_eq_eq_eq ▸ rfl))
    (List.rel_filter ?_ h)
  · rintro name _ rfl
    exact forall₂_find? h name
  · intro t t' ht
    simp [ht.fullName]

theorem forall₂_flatMap_items {ts ts' : List MessageTyping}
    (h : List.Forall₂ (Counterpart catalog file a b) ts ts') :
    List.Forall₂ (Item.Counterpart catalog file a b) (ts.flatMap MessageTyping.items)
      (ts'.flatMap MessageTyping.items) :=
  List.rel_flatMap h fun _ _ ht => ht.items

theorem forall₂_map_enumeration (enums : List EnumTyping) :
    List.Forall₂ (Item.Counterpart catalog file a b) (enums.map .enumeration)
      (enums.map .enumeration) := by
  induction enums with
  | nil => exact .nil
  | cons typing rest ih => exact .cons (.enumeration typing) ih

/-- **The items of a message** correspond if its properties, its enums and the
messages inside it do. -/
theorem forall₂_items {scope : String} {m : Message} (hm : (scope, m) ∈ file.withScopes)
    {t t' : MessageTyping} (hname : t.name = m.name) (hname' : t'.name = m.name)
    (hleading : t'.leading = t.leading)
    (hproperties : Forall₃ (Property.Counterpart catalog ⟨scope, file.path⟩ a b) m.fields
      t.properties t'.properties)
    (henums : t'.enums = t.enums)
    (hnested : List.Forall₂ (Counterpart catalog file a b) t.nested t'.nested)
    (hentries : List.Forall₂ (Counterpart catalog file a b) t.mapEntries t'.mapEntries) :
    List.Forall₂ (Item.Counterpart catalog file a b) t.items t'.items := by
  have hinner : List.Forall₂ (Item.Counterpart catalog file a b) t.inner t'.inner := by
    unfold inner
    rw [henums]
    exact List.rel_append (List.rel_append (forall₂_map_enumeration t.enums)
      (forall₂_flatMap_items hnested)) (forall₂_flatMap_items hentries)
  rw [items_eq, items_eq, hname, hname', hleading]
  refine .cons (.interface hm hproperties) ?_
  generalize t.inner = inner, t'.inner = inner' at hinner
  cases hinner with
  | nil => exact .nil
  | cons hfirst hrest => exact .cons (.scope (.cons hfirst hrest)) .nil

end MessageTyping

/-- The contents that `a` and `b` make of one declaration file. -/
structure Typings.Counterpart (catalog : Catalog) (file : File) (a b : Settings)
    (t t' : Typings) : Prop where
  imports : t'.imports = t.imports
  package : t'.outline.package = t.outline.package
  items : List.Forall₂ (Item.Counterpart catalog file a b) t.outline.items t'.outline.items

theorem Typings.Counterpart.eq {catalog : Catalog} {file : File} {a b : Settings}
    (hsettings : a.TypeAlike b) {t t' : Typings} (h : Typings.Counterpart catalog file a b t t') :
    t' = t := by
  have hitems : t'.outline.items = t.outline.items := by
    have : List.Forall₂ Eq t'.outline.items t.outline.items :=
      (h.items.imp fun item item' hitem => hitem.eq hsettings item item').flip
    rwa [List.forall₂_eq_eq_eq] at this
  obtain ⟨imports, package, items⟩ := t
  obtain ⟨imports', package', items'⟩ := t'
  obtain ⟨rfl, rfl, -⟩ := h
  cases hitems
  rfl

end ProtoTypings
