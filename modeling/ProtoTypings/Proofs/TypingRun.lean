import ProtoTypings.Output
import ProtoTypings.Proofs.ResolveMonad
/-!
# Typing as a run of the resolver

Typing a file is a sequence of mentions to the file's resolver. Which mentions
it makes, and in which order, is read off the descriptors (`File.mentions`); it
does not depend on the answers.

* `Field.yields_typing`, `Message.yielded_typing`, `Service.yielded_typing`:
  what the typing of a declaration is made of.
* `File.yields_typing`: typing a file makes the mentions of the file, messages
  before services.
* `Catalog.typings_eq_ok`: the contents of a declaration file come from such a
  run.
* `File.nulFree_of_mem_mentions`: names without NUL make scopes without NUL.
-/
namespace ProtoTypings

/-! ## Fields -/

/-- Whether values of a kind are written as a path. -/
def FieldType.isNamed : FieldType → Bool
  | .enum | .message | .group => true
  | _ => false

def ValueType.path? : ValueType → Option String
  | .named path => some path
  | .array element => element.path?
  | .map value => value.path?
  | .number | .string | .boolean | .bytes => none

/-- The path that a resolver remembers for a mention. -/
def Resolver.pathOf? (r : Resolver) (q : Mention) : Option String :=
  (r.known.lookup q.key).map (·.path)

namespace Field

def mapType? (catalog : Catalog) (site : FieldSite) (field : Field) : Option DeclaredType :=
  match field.mapEntry? catalog site with
  | .ok (some (entry, _)) => some entry
  | _ => none

/-- The field whose values a property holds: the value field of the entry type
for a map, and any other field itself. -/
def carrier? (catalog : Catalog) (site : FieldSite) (field : Field) : Option Field :=
  match field.mapEntry? catalog site with
  | .ok (some (_, message)) => (field.entryValue site message).toOption
  | .ok none => some field
  | .error _ => none

/-- The type name that the property of a field shows as a path: that of a field
which is no map, or that of a map's values. -/
def typeReference? (catalog : Catalog) (site : FieldSite) (field : Field) : Option String :=
  match field.carrier? catalog site with
  | some carrier =>
    match carrier.kind catalog site with
    | .ok kind => if kind.isNamed then some carrier.typeName else none
    | .error _ => none
  | none => none

/-- The mentions of a field: at most one. -/
def mentions (catalog : Catalog) (site : FieldSite) (field : Field) : List Mention :=
  (field.typeReference? catalog site).toList.map fun text => ⟨text, site.message⟩

variable {settings : Settings} {site : FieldSite} {field : Field} {r r' : Resolver}

theorem yields_namedPath {path : String} (h : (field.namedPath site).Yields r path r') :
    ∃ context reference, r.resolve field.typeName site.message context = (.ok reference, r') ∧
      reference.path = path := by
  rw [namedPath] at h
  split at h
  · exact absurd h ResolveM.not_yields_throw
  · obtain ⟨reference, hresolve, hpath⟩ :=
      ResolveM.yields_path_iff (q := ⟨field.typeName, site.message⟩).1 h
    exact ⟨_, reference, hresolve, hpath⟩

/-- A value of a kind that is not named asks for nothing and shows no path. -/
theorem yields_valueOfKind_of_not_named {kind : FieldType} (hkind : kind.isNamed = false)
    {type : ValueType} (h : (field.valueOfKind settings site kind).Yields r type r') :
    r = r' ∧ type.path? = none := by
  cases kind with
  | enum | message | group => cases hkind
  | int64 | uint64 | sint64 | fixed64 | sfixed64 =>
    obtain ⟨rfl, rfl⟩ := ResolveM.yields_pure_iff.1 h
    refine ⟨rfl, ?_⟩
    split <;> rfl
  | _ =>
    obtain ⟨rfl, rfl⟩ := ResolveM.yields_pure_iff.1 h
    exact ⟨rfl, rfl⟩

theorem yields_valueOfKind_of_named {kind : FieldType} (hkind : kind.isNamed = true)
    {type : ValueType} (h : (field.valueOfKind settings site kind).Yields r type r') :
    ∃ context reference, r.resolve field.typeName site.message context = (.ok reference, r') ∧
      type = .named reference.path := by
  have hmap : field.valueOfKind settings site kind = .named <$> field.namedPath site := by
    cases kind with
    | enum | message | group => rfl
    | _ => cases hkind
  rw [hmap, ResolveM.yields_map_iff] at h
  obtain ⟨path, hpath, rfl⟩ := h
  obtain ⟨context, reference, hresolve, rfl⟩ := yields_namedPath hpath
  exact ⟨context, reference, hresolve, rfl⟩

theorem yields_value {type : ValueType} (h : (field.value settings site).Yields r type r') :
    ∃ kind, field.kind r.catalog site = .ok kind ∧
      (field.valueOfKind settings site kind).Yields r type r' := by
  rw [value, ResolveM.yields_bind_iff] at h
  obtain ⟨s, next, hget, h⟩ := h
  obtain ⟨rfl, rfl⟩ := ResolveM.yields_get_iff.1 hget
  rw [ResolveM.yields_bind_iff] at h
  obtain ⟨kind, next, hlift, h⟩ := h
  obtain ⟨hkind, rfl⟩ := ResolveM.yields_lift_iff.1 hlift
  exact ⟨kind, hkind, h⟩

/-- One value of the carrier of a field: the mention that it makes and the path
that it shows. -/
theorem carrier_value {carrier : Field} (hcarrier : field.carrier? r.catalog site = some carrier)
    {type : ValueType} (h : (carrier.value settings site).Yields r type r') :
    Resolver.Run r (field.mentions r.catalog site) r' ∧
      type.path? = (field.typeReference? r.catalog site).bind
        fun text => r'.pathOf? ⟨text, site.message⟩ := by
  obtain ⟨kind, hkind, h⟩ := yields_value h
  cases hnamed : kind.isNamed with
  | false =>
    obtain ⟨rfl, hpath⟩ := yields_valueOfKind_of_not_named hnamed h
    have hnone : field.typeReference? r.catalog site = none := by
      simp [typeReference?, hcarrier, hkind, hnamed]
    rw [mentions, hnone]
    exact ⟨.nil r, hpath⟩
  | true =>
    obtain ⟨context, reference, hresolve, rfl⟩ := yields_valueOfKind_of_named hnamed h
    have hsome : field.typeReference? r.catalog site = some carrier.typeName := by
      simp [typeReference?, hcarrier, hkind, hnamed]
    have hknown := (Resolver.resolve_extends (q := ⟨carrier.typeName, site.message⟩) hresolve).2
    rw [mentions, hsome]
    refine ⟨.cons (q := ⟨carrier.typeName, site.message⟩) hresolve (.nil r'), ?_⟩
    simp [ValueType.path?, Resolver.pathOf?, hknown]

theorem path?_plainTyping (field : Field) (type : ValueType) :
    (field.plainTyping type).type.path? = type.path? ∧
      (field.plainTyping type).mapEntry = none := by
  rw [plainTyping]
  split
  · exact ⟨rfl, rfl⟩
  · split <;> exact ⟨rfl, rfl⟩

/-- **Typing a field.** It makes the mentions of the field, its type shows the
path remembered for them, and it names the entry type of a map. -/
theorem yields_typing {typing : FieldTyping} (h : (field.typing settings site).Yields r typing r') :
    Resolver.Run r (field.mentions r.catalog site) r' ∧
      (typing.type.path? = (field.typeReference? r.catalog site).bind
        fun text => r'.pathOf? ⟨text, site.message⟩) ∧
      typing.mapEntry = (field.mapType? r.catalog site).map (·.fullName) := by
  rw [Field.typing, ResolveM.yields_bind_iff] at h
  obtain ⟨s, next, hget, h⟩ := h
  obtain ⟨rfl, rfl⟩ := ResolveM.yields_get_iff.1 hget
  rw [ResolveM.yields_bind_iff] at h
  obtain ⟨found, next, hlift, h⟩ := h
  obtain ⟨hentry, rfl⟩ := ResolveM.yields_lift_iff.1 hlift
  cases found with
  | none =>
    obtain ⟨type, hvalue, rfl⟩ := ResolveM.yields_map_iff.1 h
    have hcarrier : field.carrier? r.catalog site = some field := by simp [carrier?, hentry]
    obtain ⟨hrun, hpath⟩ := carrier_value hcarrier hvalue
    obtain ⟨hplain, hmap⟩ := path?_plainTyping field type
    exact ⟨hrun, hplain.trans hpath, by simp [hmap, mapType?, hentry]⟩
  | some found =>
    obtain ⟨entry, message⟩ := found
    simp only [ResolveM.yields_bind_iff, ResolveM.yields_lift_iff, ResolveM.yields_pure_iff] at h
    obtain ⟨carrier, next, ⟨hvalueField, rfl⟩, type, last, hvalue, rfl, rfl⟩ := h
    have hcarrier : field.carrier? r.catalog site = some carrier := by
      simp [carrier?, hentry, hvalueField, Except.toOption]
    obtain ⟨hrun, hpath⟩ := carrier_value hcarrier hvalue
    exact ⟨hrun, hpath, by simp [mapType?, hentry]⟩

end Field

/-! ## Messages -/

theorem map_zipIdx {α β : Type} (xs : List α) (f : α → β) :
    xs.zipIdx.map (fun x => f x.1) = xs.map f := by
  have h : xs.map f = (xs.zipIdx.map (·.1)).map f := by simp
  rw [h, List.map_map]
  rfl

theorem flatMap_zipIdx {α β : Type} (xs : List α) (f : α → List β) :
    xs.zipIdx.flatMap (fun x => f x.1) = xs.flatMap f := by
  rw [List.flatMap, map_zipIdx, List.flatMap]

theorem forall₂_zipIdx_iff {α β : Type} {R : α → β → Prop} {xs : List α} {ys : List β} :
    List.Forall₂ (fun x y => R x.1 y) xs.zipIdx ys ↔ List.Forall₂ R xs ys := by
  rw [← List.forall₂_map_left_iff (f := Prod.fst), List.zipIdx_map_fst]

namespace Field

variable {context : TypingContext} {catalog : Catalog} {message : String} {path : List Int32}
  {field : Field} {index : Nat}

theorem asks_property :
    ResolveM.Asks catalog (field.mentions catalog ⟨message, context.file⟩)
      (field.property context message path index) := by
  intro r result r' hr h
  subst hr
  rw [property, ResolveM.yields_bind_iff] at h
  obtain ⟨typing, next, htyping, h⟩ := h
  obtain ⟨-, rfl⟩ := ResolveM.yields_pure_iff.1 h
  exact (yields_typing htyping).1

/-- The property of a field: its name, its comment, the path that it shows and
the entry type that it uses. -/
theorem yielded_property {last : Resolver} {result : Property × Option String}
    (h : ResolveM.Yielded catalog last (field.property context message path index) result) :
    result.1.name = context.name .field field.name ∧
      result.1.comment = context.comment (PathStep.messageField.child path index) ∧
      Option.Rel (fun text path => last.pathOf? ⟨text, message⟩ = some path)
        (field.typeReference? catalog ⟨message, context.file⟩) result.1.type.path? ∧
      result.2 = (field.mapType? catalog ⟨message, context.file⟩).map (·.fullName) := by
  obtain ⟨before, after, rfl, h, hlast⟩ := h
  rw [property, ResolveM.yields_bind_iff] at h
  obtain ⟨typing, next, htyping, h⟩ := h
  obtain ⟨rfl, rfl⟩ := ResolveM.yields_pure_iff.1 h
  obtain ⟨hrun, hpath, hentry⟩ := yields_typing htyping
  refine ⟨rfl, rfl, ?_, hentry⟩
  rw [hpath]
  cases htext : field.typeReference? before.catalog ⟨message, context.file⟩ with
  | none => exact .none
  | some text =>
    -- the mention was answered, so its answer is remembered now and later
    obtain ⟨reference, hknown⟩ := hrun.remembered ⟨text, message⟩ (by simp [mentions, htext])
    simp only [Option.bind_some, Resolver.pathOf?, hknown, Option.map_some]
    exact .some (by rw [hlast.known _ _ hknown, Option.map_some])

end Field

mutual

/-- The mentions of a message: those of its fields, then those of the messages
inside it. -/
def Message.mentions (catalog : Catalog) (file outer : String) : Message → List Mention
  | .mk name fields nested _ _ =>
    fields.flatMap (Field.mentions catalog ⟨Dotted.join outer name, file⟩) ++
      Message.allMentions catalog file (Dotted.join outer name) nested

def Message.allMentions (catalog : Catalog) (file outer : String) : List Message → List Mention
  | [] => []
  | message :: rest =>
    Message.mentions catalog file outer message ++ Message.allMentions catalog file outer rest

end

namespace Message

theorem allMentions_eq_flatMap (catalog : Catalog) (file outer : String) (ms : List Message) :
    allMentions catalog file outer ms = ms.flatMap (mentions catalog file outer) := by
  induction ms with
  | nil => rfl
  | cons m ms ih => rw [allMentions, ih, List.flatMap_cons]

theorem mentions_eq (catalog : Catalog) (file outer : String) (m : Message) :
    m.mentions catalog file outer =
      m.fields.flatMap (Field.mentions catalog ⟨Dotted.join outer m.name, file⟩) ++
        m.nested.flatMap (mentions catalog file (Dotted.join outer m.name)) := by
  obtain ⟨name, fields, nested, enums, isMapEntry⟩ := m
  rw [mentions, allMentions_eq_flatMap]

variable {context : TypingContext} {catalog : Catalog}

/-- The typing of a message at a position of a list, with whether it is a map
entry. -/
def flaggedTyping (context : TypingContext) (outer : String) (path : List Int32) (step : PathStep)
    (m : Message × Nat) : ResolveM (MessageTyping × Bool) := do
  let typing ← m.1.typing context outer (step.child path m.2)
  pure (typing, m.1.isMapEntry)

theorem allTypings_eq_mapM (context : TypingContext) (outer : String) (path : List Int32)
    (step : PathStep) (index : Nat) (ms : List Message) :
    allTypings context outer path step index ms =
      (ms.zipIdx index).mapM (flaggedTyping context outer path step) := by
  induction ms generalizing index with
  | nil => rfl
  | cons m ms ih =>
    rw [allTypings, List.zipIdx_cons, List.mapM_cons, ih, flaggedTyping, bind_assoc]
    simp only [pure_bind]

theorem typing_eq (context : TypingContext) (outer : String) (path : List Int32) (m : Message) :
    m.typing context outer path = (do
      let properties ← m.fields.zipIdx.mapM fun field =>
        field.1.property context (Dotted.join outer m.name) path field.2
      let inner ← m.nested.zipIdx.mapM
        (flaggedTyping context (Dotted.join outer m.name) path .messageNested)
      pure
        { name := m.name
          fullName := Dotted.join outer m.name
          leading := (context.comment path).leading
          properties := properties.map (·.1)
          enums := EnumType.allTypings context (Dotted.join outer m.name) path .messageEnum m.enums
          nested := (inner.filter (!·.2)).map (·.1)
          mapEntries := MessageTyping.placeEntries (properties.filterMap (·.2))
            ((inner.filter (·.2)).map (·.1)) }) := by
  obtain ⟨name, fields, nested, enums, isMapEntry⟩ := m
  rw [typing, allTypings_eq_mapM]
  rfl

theorem asks_flaggedTyping {outer : String} {path : List Int32} {step : PathStep}
    {m : Message × Nat} {qs : List Mention}
    (h : ResolveM.Asks catalog qs (m.1.typing context outer (step.child path m.2))) :
    ResolveM.Asks catalog qs (flaggedTyping context outer path step m) := by
  rw [← List.append_nil qs]
  exact h.bind fun _ => ResolveM.asks_pure _

theorem asks_typing (m : Message) :
    ∀ outer path, ResolveM.Asks catalog (m.mentions catalog context.file outer)
      (m.typing context outer path) := by
  induction m using Message.nested_induction with
  | step m ih =>
    intro outer path
    rw [typing_eq, mentions_eq, ← flatMap_zipIdx m.fields, ← flatMap_zipIdx m.nested,
      ← List.append_nil (List.flatMap _ m.nested.zipIdx)]
    refine ResolveM.Asks.bind (ResolveM.asks_mapM fun _ _ => Field.asks_property) fun _ => ?_
    refine ResolveM.Asks.bind (ResolveM.asks_mapM fun n hn => ?_) fun _ => ResolveM.asks_pure _
    exact asks_flaggedTyping (ih n.1 (List.fst_mem_of_mem_zipIdx hn) _ _)

theorem yielded_flaggedTyping {outer : String} {path : List Int32} {step : PathStep}
    {m : Message × Nat} {last : Resolver} {result : MessageTyping × Bool}
    (h : ResolveM.Yielded catalog last (flaggedTyping context outer path step m) result) :
    result.2 = m.1.isMapEntry ∧
      ResolveM.Yielded catalog last (m.1.typing context outer (step.child path m.2)) result.1 := by
  obtain ⟨before, after, hbefore, h, hlast⟩ := h
  rw [flaggedTyping, ResolveM.yields_bind_iff] at h
  obtain ⟨typing, next, htyping, h⟩ := h
  obtain ⟨rfl, rfl⟩ := ResolveM.yields_pure_iff.1 h
  exact ⟨rfl, before, next, hbefore, htyping, hlast⟩

/-- **Typing a message.** Its properties, the typings of the messages inside it
and the typing made of them were all yielded on the way. -/
theorem yielded_typing {m : Message} {outer : String} {path : List Int32} {last : Resolver}
    {typing : MessageTyping}
    (h : ResolveM.Yielded catalog last (m.typing context outer path) typing) :
    ∃ (properties : List (Property × Option String)) (inner : List (MessageTyping × Bool)),
      List.Forall₂ (fun field result => ResolveM.Yielded catalog last
        (field.1.property context (Dotted.join outer m.name) path field.2) result)
        m.fields.zipIdx properties ∧
      List.Forall₂ (fun n result => result.2 = n.1.isMapEntry ∧ ResolveM.Yielded catalog last
        (n.1.typing context (Dotted.join outer m.name) (PathStep.messageNested.child path n.2))
        result.1) m.nested.zipIdx inner ∧
      typing =
        { name := m.name
          fullName := Dotted.join outer m.name
          leading := (context.comment path).leading
          properties := properties.map (·.1)
          enums := EnumType.allTypings context (Dotted.join outer m.name) path .messageEnum m.enums
          nested := (inner.filter (!·.2)).map (·.1)
          mapEntries := MessageTyping.placeEntries (properties.filterMap (·.2))
            ((inner.filter (·.2)).map (·.1)) } := by
  obtain ⟨before, after, rfl, h, hlast⟩ := h
  rw [typing_eq] at h
  simp only [ResolveM.yields_bind_iff, ResolveM.yields_pure_iff] at h
  obtain ⟨properties, next, hproperties, inner, _, hinner, rfl, rfl⟩ := h
  have hnext : next.catalog = before.catalog :=
    (ResolveM.asks_mapM (fun _ _ => Field.asks_property) _ _ _ rfl hproperties).extends.catalog
  have hnested : ∀ n ∈ m.nested.zipIdx, ResolveM.Asks before.catalog
      (n.1.mentions before.catalog context.file (Dotted.join outer m.name))
      (flaggedTyping context (Dotted.join outer m.name) path .messageNested n) :=
    fun n _ => asks_flaggedTyping (asks_typing n.1 _ _)
  refine ⟨properties, inner, ?_, ?_, rfl⟩
  · have hext := (ResolveM.asks_mapM hnested _ _ _ hnext hinner).extends.trans hlast
    exact (ResolveM.forall₂_of_yields_mapM (fun _ _ => Field.asks_property) rfl hproperties).imp
      fun _ _ h => h.extends hext
  · exact (ResolveM.forall₂_of_yields_mapM hnested hnext hinner).imp
      fun _ _ h => yielded_flaggedTyping (h.extends hlast)

end Message

/-! ## Services and files -/

/-- The scope in which the types of a service's methods are looked up. -/
def Service.scope (package : String) (service : Service) : String :=
  Dotted.parent (Dotted.join package service.name)

/-- The mentions of a service: for each method the request type, then the
response type. -/
def Service.mentions (package : String) (service : Service) : List Mention :=
  service.methods.flatMap fun method =>
    [⟨method.input, service.scope package⟩, ⟨method.output, service.scope package⟩]

/-- The mentions of a file: messages depth first, then services. -/
def File.mentions (catalog : Catalog) (file : File) : List Mention :=
  Message.allMentions catalog file.path file.packageName file.messages ++
    file.services.flatMap (Service.mentions file.packageName)

/-! ## Scopes without NUL -/

/-- The scopes of a message's mentions are put together from the scope around it
and the names of messages. -/
theorem Message.nulFree_of_mem_mentions {catalog : Catalog} {file package : String} (m : Message) :
    ∀ inner outer,
      (∀ entry ∈ m.types file package inner, Text.NulFree entry.simpleName) →
      Text.NulFree outer → ∀ q ∈ m.mentions catalog file outer, Text.NulFree q.scope := by
  induction m using Message.nested_induction with
  | step m ih =>
    intro inner outer hnames houter q hq
    obtain ⟨hname, hnested, -⟩ := Message.forall_types.1 hnames
    have hscope : Text.NulFree (Dotted.join outer m.name) := houter.join hname
    rw [Message.mentions_eq, List.mem_append, List.mem_flatMap, List.mem_flatMap] at hq
    obtain ⟨field, -, hq⟩ | ⟨n, hn, hq⟩ := hq
    · obtain ⟨text, -, rfl⟩ := List.mem_map.1 hq
      exact hscope
    · exact ih n hn _ _ (hnested n hn) hscope q hq

theorem File.nulFree_of_mem_allMentions {catalog : Catalog} {file : File} (h : file.NulFree) :
    ∀ q ∈ Message.allMentions catalog file.path file.packageName file.messages,
      Text.NulFree q.scope := by
  intro q hq
  rw [Message.allMentions_eq_flatMap, List.mem_flatMap] at hq
  obtain ⟨m, hm, hq⟩ := hq
  exact m.nulFree_of_mem_mentions _ _ ((File.forall_types.1 h.2).1 m hm) h.1 q hq

theorem File.nulFree_of_mem_mentions {catalog : Catalog} {file : File} (h : file.NulFree)
    (hservices : ∀ service ∈ file.services, Text.NulFree service.name) :
    ∀ q ∈ file.mentions catalog, Text.NulFree q.scope := by
  intro q hq
  rw [File.mentions, List.mem_append, List.mem_flatMap] at hq
  obtain hq | ⟨service, hservice, hq⟩ := hq
  · exact File.nulFree_of_mem_allMentions h q hq
  · have hscope : Text.NulFree (service.scope file.packageName) :=
      (h.1.join (hservices service hservice)).parent
    obtain ⟨method, -, hq⟩ := List.mem_flatMap.1 hq
    have hsame : q.scope = service.scope file.packageName := by
      obtain rfl | hq := List.mem_cons.1 hq
      · rfl
      · rw [List.mem_singleton.1 hq]
    rw [hsame]
    exact hscope

/-! ## Typing services and files -/

section declarations
variable {context : TypingContext} {catalog : Catalog}

theorem Method.asks_operation (package : String) (service : Service) (path : List Int32)
    (method : Method) (index : Nat) :
    ResolveM.Asks catalog
      [⟨method.input, service.scope package⟩, ⟨method.output, service.scope package⟩]
      (method.operation context (Dotted.join package service.name) path index) := by
  have hcall : ResolveM.Asks catalog
      ([⟨method.input, service.scope package⟩] ++ ([⟨method.output, service.scope package⟩] ++ []))
      (method.callType context.settings (Dotted.join package service.name)) :=
    (ResolveM.asks_path ⟨method.input, service.scope package⟩ _).bind fun _ =>
      (ResolveM.asks_path ⟨method.output, service.scope package⟩ _).bind fun _ =>
        ResolveM.asks_pure _
  exact hcall.bind fun _ => ResolveM.asks_pure _

/-- The operation for a method shows the paths remembered for its types. -/
theorem Method.yielded_operation {package : String} {service : Service} {path : List Int32}
    {method : Method} {index : Nat} {last : Resolver} {operation : Operation}
    (h : ResolveM.Yielded catalog last
      (method.operation context (Dotted.join package service.name) path index) operation) :
    operation.name = context.name .method method.name ∧
      operation.type.streaming = .ofFlags method.clientStreaming method.serverStreaming ∧
      operation.type.asyncIterators = context.settings.asyncIterators ∧
      last.pathOf? ⟨method.input, service.scope package⟩ = some operation.type.input ∧
      last.pathOf? ⟨method.output, service.scope package⟩ = some operation.type.output := by
  obtain ⟨before, after, -, h, hlast⟩ := h
  simp only [Method.operation, Method.callType, ResolveM.yields_bind_iff,
    ResolveM.yields_pure_iff] at h
  obtain ⟨_, _, ⟨input, next, hinput, output, last', houtput, rfl, rfl⟩, rfl, rfl⟩ := h
  obtain ⟨ref, hresolve, rfl⟩ :=
    ResolveM.yields_path_iff (q := ⟨method.input, service.scope package⟩).1 hinput
  obtain ⟨ref', hresolve', rfl⟩ :=
    ResolveM.yields_path_iff (q := ⟨method.output, service.scope package⟩).1 houtput
  obtain ⟨-, hknown⟩ := Resolver.resolve_extends hresolve
  obtain ⟨hext, hknown'⟩ := Resolver.resolve_extends hresolve'
  refine ⟨rfl, rfl, rfl, ?_, ?_⟩
  · simp [Resolver.pathOf?, (hext.trans hlast).known _ _ hknown]
  · simp [Resolver.pathOf?, hlast.known _ _ hknown']

theorem Method.comment_of_yielded {scope : String} {path : List Int32} {method : Method}
    {index : Nat} {last : Resolver} {operation : Operation}
    (h : ResolveM.Yielded catalog last (method.operation context scope path index) operation) :
    operation.comment = context.comment (PathStep.serviceMethod.child path index) := by
  obtain ⟨before, after, -, h, -⟩ := h
  rw [Method.operation, ResolveM.yields_bind_iff] at h
  obtain ⟨type, next, -, h⟩ := h
  obtain ⟨rfl, -⟩ := ResolveM.yields_pure_iff.1 h
  rfl

theorem Service.asks_typing (package : String) (path : List Int32) (service : Service) :
    ResolveM.Asks catalog (service.mentions package) (service.typing context package path) := by
  rw [Service.typing, Service.mentions, ← flatMap_zipIdx, ← List.append_nil (List.flatMap _ _)]
  exact (ResolveM.asks_mapM fun method _ =>
    Method.asks_operation package service path method.1 method.2).bind fun _ => ResolveM.asks_pure _

theorem Service.yielded_typing {package : String} {path : List Int32} {service : Service}
    {last : Resolver} {typing : ServiceTyping}
    (h : ResolveM.Yielded catalog last (service.typing context package path) typing) :
    typing.name = service.name ++ "Service" ∧
      List.Forall₂ (fun method operation => ResolveM.Yielded catalog last
        (method.1.operation context (Dotted.join package service.name) path method.2) operation)
        service.methods.zipIdx typing.operations := by
  obtain ⟨before, after, rfl, h, hlast⟩ := h
  simp only [Service.typing, ResolveM.yields_bind_iff, ResolveM.yields_pure_iff] at h
  obtain ⟨operations, next, hoperations, rfl, rfl⟩ := h
  refine ⟨rfl, ?_⟩
  exact (ResolveM.forall₂_of_yields_mapM (fun method _ =>
    Method.asks_operation package service path method.1 method.2) rfl hoperations).imp
    fun _ _ h => h.extends hlast

theorem Service.leading_of_yielded {package : String} {path : List Int32} {service : Service}
    {last : Resolver} {typing : ServiceTyping}
    (h : ResolveM.Yielded catalog last (service.typing context package path) typing) :
    typing.leading = (context.comment path).leading := by
  obtain ⟨before, after, -, h, -⟩ := h
  rw [Service.typing, ResolveM.yields_bind_iff] at h
  obtain ⟨operations, next, -, h⟩ := h
  obtain ⟨rfl, -⟩ := ResolveM.yields_pure_iff.1 h
  rfl

/-- What the declarations of a file share. -/
def File.typingContext (settings : Settings) (file : File) : TypingContext :=
  ⟨settings, file.path, file.locations⟩

theorem File.asks_messages (settings : Settings) (file : File) :
    ResolveM.Asks catalog
      (Message.allMentions catalog file.path file.packageName file.messages)
      (Message.allTypings (file.typingContext settings) file.packageName [] .fileMessage 0
        file.messages) := by
  rw [Message.allMentions_eq_flatMap, Message.allTypings_eq_mapM, ← flatMap_zipIdx]
  exact ResolveM.asks_mapM fun m _ => Message.asks_flaggedTyping (Message.asks_typing m.1 _ _)

theorem File.asks_services (settings : Settings) (file : File) :
    ResolveM.Asks catalog (file.services.flatMap (Service.mentions file.packageName))
      (file.services.zipIdx.mapM fun service => service.1.typing (file.typingContext settings)
        file.packageName (PathStep.fileService.child [] service.2)) := by
  rw [← flatMap_zipIdx]
  exact ResolveM.asks_mapM fun service _ => Service.asks_typing file.packageName _ service.1

/-- A run that types a file: the messages make their mentions first and lead to
`mid`, then the services lead to `last`. Every declaration was typed on the way. -/
structure File.TypingRun (settings : Settings) (file : File) (r mid last : Resolver)
    (typing : FileTyping) : Prop where
  messageRun :
    r.Run (Message.allMentions r.catalog file.path file.packageName file.messages) mid
  serviceRun : mid.Run (file.services.flatMap (Service.mentions file.packageName)) last
  enums : typing.enums =
    EnumType.allTypings (file.typingContext settings) file.packageName [] .fileEnum file.enums
  messages : List.Forall₂ (fun m result => ResolveM.Yielded r.catalog mid
    (m.1.typing (file.typingContext settings) file.packageName
      (PathStep.fileMessage.child [] m.2)) result) file.messages.zipIdx typing.messages
  services : List.Forall₂ (fun service result => ResolveM.Yielded r.catalog last
    (service.1.typing (file.typingContext settings) file.packageName
      (PathStep.fileService.child [] service.2)) result) file.services.zipIdx typing.services

theorem File.TypingRun.run {settings : Settings} {file : File} {r mid last : Resolver}
    {typing : FileTyping} (h : file.TypingRun settings r mid last typing) :
    r.Run (file.mentions r.catalog) last :=
  h.messageRun.append h.serviceRun

/-- **Typing a file** is such a run. -/
theorem File.yields_typing {settings : Settings} {file : File} {r last : Resolver}
    {typing : FileTyping} (h : (file.typing settings).Yields r typing last) :
    ∃ mid, file.TypingRun settings r mid last typing := by
  simp only [File.typing, ResolveM.yields_bind_iff,
    ResolveM.yields_pure_iff] at h
  obtain ⟨messages, mid, hmessages, services, _, hservices, rfl, rfl⟩ := h
  have hrun := File.asks_messages settings file r messages mid rfl hmessages
  have hmid := hrun.extends.catalog
  refine ⟨mid, hrun, File.asks_services settings file mid services _ hmid hservices, rfl, ?_, ?_⟩
  · rw [Message.allTypings_eq_mapM] at hmessages
    rw [List.forall₂_map_right_iff]
    exact (ResolveM.forall₂_of_yields_mapM (fun m _ => Message.asks_flaggedTyping
      (Message.asks_typing m.1 _ _)) rfl hmessages).imp
      fun _ _ h => (Message.yielded_flaggedTyping h).2
  · exact ResolveM.forall₂_of_yields_mapM
      (fun service _ => Service.asks_typing file.packageName _ service.1) hmid hservices

/-- A file that has contents was typed, and no name was found twice. -/
theorem Catalog.yields_of_typings {settings : Settings} {path : String} {typings : Typings}
    (h : catalog.typings settings path = .ok typings) :
    ∃ file typing last, catalog.file? path = some file ∧
      (file.typing settings).Yields (Resolver.ofFile catalog path) typing last ∧
      Item.firstClash? file.packageName [] typing.items = none ∧
      typings =
        { imports := last.imports.list
          outline := ⟨Text.splitNonempty '.' file.packageName, typing.items⟩ } := by
  rw [Catalog.typings, Catalog.requireFile] at h
  cases hfile : catalog.file? path with
  | none =>
    rw [hfile] at h
    cases h
  | some file =>
    rw [hfile] at h
    rcases hrun : (file.typing settings).run.run (Resolver.ofFile catalog path) with
      ⟨fault | typing, last⟩
    · simp [hrun, bind, Except.bind] at h
    · simp only [hrun, bind, Except.bind, Outline.ofTyping] at h
      cases hclash : Item.firstClash? file.packageName [] typing.items with
      | some place => simp [hclash] at h
      | none =>
        simp only [hclash] at h
        cases h
        exact ⟨file, typing, last, rfl, hrun, hclash, rfl⟩

/-- **The contents of a declaration file** come from a run of the resolver of the
file. -/
theorem Catalog.typings_eq_ok {settings : Settings} {path : String} {typings : Typings}
    (h : catalog.typings settings path = .ok typings) :
    ∃ file typing mid last, catalog.file? path = some file ∧
      file.TypingRun settings (Resolver.ofFile catalog path) mid last typing ∧
      typings =
        { imports := last.imports.list
          outline := ⟨Text.splitNonempty '.' file.packageName, typing.items⟩ } := by
  obtain ⟨file, typing, last, hfile, hyields, -, htypings⟩ := Catalog.yields_of_typings h
  obtain ⟨mid, run⟩ := File.yields_typing hyields
  exact ⟨file, typing, mid, last, hfile, run, htypings⟩

end declarations

/-! ## A sample -/

namespace Sample

def base : File where
  name := some "lib/base.proto"
  package := some "lib"
  messages := [{ name := "Id" }]

def units : File where
  name := some "lib/units.proto"
  package := some "lib"
  dependencies := ["lib/base.proto"]
  enums := [{ name := "Unit", values := [{ name := "PIECE" }] }]

/-- A message with a map, an enum and a message inside, which refers to an import
and to an import of that. -/
def order : Message where
  name := "Order"
  fields :=
    [{ name := "lines", number := some 1, label := .repeated, typeCode := some 11
       typeName := ".shop.Order.LinesEntry" },
     { name := "state", number := some 2, typeCode := some 14, typeName := "State" }]
  nested :=
    [{ name := "LinesEntry"
       fields :=
        [{ name := "key", number := some 1, typeCode := some 9 },
         { name := "value", number := some 2, typeCode := some 11, typeName := "Line" }]
       isMapEntry := true },
     { name := "Line"
       fields :=
        [{ name := "id", number := some 1, typeCode := some 11, typeName := ".lib.Id" },
         { name := "unit", number := some 2, typeCode := some 14, typeName := ".lib.Unit" }] }]
  enums := [{ name := "State", values := [{ name := "OPEN" }] }]

def shop : File where
  name := some "shop.proto"
  package := some "shop"
  dependencies := ["lib/units.proto"]
  messages := [order]
  services :=
    [{ name := "Till", methods := [{ name := "Pay", input := "Order", output := ".shop.Order" }] }]

def files : List File := [base, units, shop]

def catalog : Catalog := ⟨files, files.flatMap File.types⟩

theorem ofFiles_eq : Catalog.ofFiles files = .ok catalog := rfl

theorem exists_typings : ∃ typings, catalog.typings {} "shop.proto" = .ok typings := ⟨_, rfl⟩

end Sample

end ProtoTypings
