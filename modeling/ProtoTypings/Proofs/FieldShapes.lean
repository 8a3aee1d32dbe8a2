import ProtoTypings.Proofs.TypingRun
/-!
# Shapes of typed fields

What the typing of a field looks like, said by the field and by the type that it names.
The code of a field gives its kind; without a code, the kind is that of the named type.
A repeated field of the kind message whose type is flagged as a map entry is a map, any
other repeated field is an array, and all others hold a single value.

**Results.**
* `Field.kind_eq_ok_iff`, `Field.mapEntry?_eq_some_iff`: when a kind is known, and when a
  field is a map.
* `Field.typing_cases`: the two ways in which a field is typed.
* `Field.shape_of_yields`: what the typing shows of the field.
-/
namespace ProtoTypings

/-- A type that holds no other type. -/
def ValueType.IsLeaf : ValueType → Prop
  | .array _ | .map _ => False
  | .number | .string | .boolean | .bytes | .named _ => True

theorem DeclaredType.mapEntry?_eq_some_iff {entry : DeclaredType} {message : Message} :
    entry.mapEntry? = some message ↔
      entry.definition = .message message ∧ message.isMapEntry = true := by
  unfold DeclaredType.mapEntry? DeclaredType.message?
  cases entry.definition with
  | message m =>
    simp only [Option.filter_eq_some_iff, Option.some.injEq, Definition.message.injEq]
  | enum e => simp

namespace Field

/-! ## Kinds -/

/-- The kind of a field in a scope: that of its code, or without a code that of the type
which it names. -/
inductive HasKind (catalog : Catalog) (scope : String) (field : Field) : FieldType → Prop
  | explicit {code : Int32} {kind : FieldType} : field.typeCode = some code →
      FieldType.ofCode? code = some kind → HasKind catalog scope field kind
  | inferred {entry : DeclaredType} : field.typeCode = none → field.typeName ≠ "" →
      catalog.resolve? field.typeName scope = some entry →
      HasKind catalog scope field (if entry.isMessage then .message else .enum)

variable {catalog : Catalog} {settings : Settings} {site : FieldSite} {field : Field}
  {r r' : Resolver}

theorem target_eq_ok_iff {entry : DeclaredType} :
    field.target catalog site = .ok entry ↔
      catalog.resolve? field.typeName site.message = some entry := by
  unfold target Catalog.resolve
  cases catalog.resolve? field.typeName site.message <;> simp

theorem target_eq_error_iff {fault : Fault} :
    field.target catalog site = .error fault ↔
      catalog.resolve? field.typeName site.message = none ∧
        fault = .unresolvedType field.typeName site.file (field.context site) := by
  unfold target Catalog.resolve
  cases catalog.resolve? field.typeName site.message <;> simp [eq_comm]

theorem kind_eq_ok_iff {kind : FieldType} :
    field.kind catalog site = .ok kind ↔ field.HasKind catalog site.message kind := by
  constructor
  · intro h
    unfold Field.kind at h
    cases hcode : field.typeCode with
    | some code =>
      cases hkind : FieldType.ofCode? code with
      | none => simp [hcode, hkind] at h
      | some found =>
        simp only [hcode, hkind, Except.ok.injEq] at h
        exact .explicit hcode (h ▸ hkind)
    | none =>
      by_cases hname : field.typeName = ""
      · simp [hcode, hname] at h
      · cases htarget : field.target catalog site with
        | error fault => simp [hcode, hname, htarget, Except.map] at h
        | ok entry =>
          simp only [hcode, hname, htarget, Except.map, if_false, Except.ok.injEq] at h
          rw [← h]
          exact .inferred hcode hname (target_eq_ok_iff.1 htarget)
  · intro h
    unfold Field.kind
    cases h with
    | explicit hcode hkind => simp [hcode, hkind]
    | inferred hcode hname hentry =>
      simp [hcode, hname, target_eq_ok_iff.2 hentry, Except.map]

/-! ## Maps -/

/-- In a scope the field is a map, with `entry` for its entries and `message` as the
definition of that. -/
structure IsMapOf (catalog : Catalog) (scope : String) (field : Field) (entry : DeclaredType)
    (message : Message) : Prop where
  repeated : field.label = .repeated
  kind : field.HasKind catalog scope .message
  target : catalog.resolve? field.typeName scope = some entry
  definition : entry.definition = .message message
  flag : message.isMapEntry = true

def IsMap (catalog : Catalog) (scope : String) (field : Field) : Prop :=
  ∃ entry message, field.IsMapOf catalog scope entry message

theorem mapEntry?_eq_some_iff {entry : DeclaredType} {message : Message} :
    field.mapEntry? catalog site = .ok (some (entry, message)) ↔
      field.IsMapOf catalog site.message entry message := by
  constructor
  · intro h
    unfold mapEntry? at h
    split at h
    · next hlabel =>
      cases hkind : field.kind catalog site with
      | error fault =>
        rw [hkind] at h
        cases h
      | ok kind =>
        simp only [hkind, bind, Except.bind] at h
        split at h
        · next hmessage =>
          cases htarget : field.target catalog site with
          | error fault =>
            rw [htarget] at h
            cases h
          | ok found =>
            simp only [htarget, pure, Except.pure, Except.ok.injEq, Option.map_eq_some_iff,
              Prod.mk.injEq] at h
            obtain ⟨m, hentry, rfl, rfl⟩ := h
            obtain ⟨hdefinition, hflag⟩ := DeclaredType.mapEntry?_eq_some_iff.1 hentry
            exact ⟨hlabel, kind_eq_ok_iff.1 (hmessage ▸ hkind), target_eq_ok_iff.1 htarget,
              hdefinition, hflag⟩
        · cases h
    · cases h
  · intro h
    have hentry : entry.mapEntry? = some message :=
      DeclaredType.mapEntry?_eq_some_iff.2 ⟨h.definition, h.flag⟩
    unfold mapEntry?
    rw [if_pos h.repeated, kind_eq_ok_iff.2 h.kind]
    simp only [bind, Except.bind, if_true, target_eq_ok_iff.2 h.target, hentry]
    rfl

theorem not_isMap_of_plain (h : field.mapEntry? catalog site = .ok none) :
    ¬ field.IsMap catalog site.message := by
  intro hmap
  obtain ⟨entry, message, hmap⟩ := hmap
  rw [mapEntry?_eq_some_iff.2 hmap] at h
  cases h

theorem IsMapOf.unique {entry entry' : DeclaredType} {message message' : Message} {scope : String}
    (h : field.IsMapOf catalog scope entry message)
    (h' : field.IsMapOf catalog scope entry' message') : entry' = entry ∧ message' = message := by
  obtain rfl : entry = entry' := Option.some.inj (h.target.symm.trans h'.target)
  have hdefinition := h.definition.symm.trans h'.definition
  rw [Definition.message.injEq] at hdefinition
  exact ⟨rfl, hdefinition.symm⟩

theorem entryValue_eq_ok_iff {message : Message} {value : Field} :
    field.entryValue site message = .ok value ↔
      message.fields.find? (·.number = some 2) = some value ∧
        ∃ key ∈ message.fields, key.number = some 1 := by
  unfold entryValue
  cases message.fields.find? (·.number = some 2) with
  | none => simp
  | some found =>
    by_cases hkey : message.fields.any (·.number = some 1)
    · simp only [if_pos hkey, Except.ok.injEq, Option.some.injEq]
      simp only [List.any_eq_true, decide_eq_true_eq] at hkey
      simp [hkey]
    · simp only [if_neg hkey, reduceCtorEq, false_iff, not_and]
      simp only [List.any_eq_true, decide_eq_true_eq] at hkey
      exact fun _ => hkey

/-! ## Single values -/

theorem isLeaf_of_yields_value {type : ValueType}
    (h : (field.value settings site).Yields r type r') : type.IsLeaf := by
  obtain ⟨kind, -, hkind⟩ := yields_value h
  cases hnamed : kind.isNamed with
  | true =>
    obtain ⟨context, reference, -, rfl⟩ := yields_valueOfKind_of_named hnamed hkind
    trivial
  | false =>
    cases kind with
    | enum | message | group => cases hnamed
    | int64 | uint64 | sint64 | fixed64 | sfixed64 =>
      obtain ⟨rfl, -⟩ := ResolveM.yields_pure_iff.1 hkind
      split <;> trivial
    | _ =>
      obtain ⟨rfl, -⟩ := ResolveM.yields_pure_iff.1 hkind
      trivial

/-- The type of one value does not depend on the label. -/
theorem value_with_label (settings : Settings) (site : FieldSite) (field : Field) (label : Label) :
    ({ field with label := label } : Field).value settings site = field.value settings site := rfl

/-- A field that is not repeated has the type of its value. -/
theorem yields_typing_of_single (hlabel : field.label ≠ .repeated) {type : ValueType}
    (h : (field.value settings site).Yields r type r') :
    (field.typing settings site).Yields r (field.plainTyping type) r' := by
  have hnone : field.mapEntry? r.catalog site = .ok none := if_neg hlabel
  unfold typing
  simp only [ResolveM.yields_bind_iff]
  refine ⟨r, r, ResolveM.yields_get_iff.2 ⟨rfl, rfl⟩, none, r,
    ResolveM.yields_lift_iff.2 ⟨hnone, rfl⟩, ?_⟩
  exact ResolveM.yields_map_iff.2 ⟨type, h, rfl⟩

/-! ## Typings -/

/-- A field is typed as a map of the values of its entry type, or by its own values. -/
theorem typing_cases {typing : FieldTyping} (h : (field.typing settings site).Yields r typing r') :
    (∃ entry message value leaf, field.IsMapOf r.catalog site.message entry message ∧
      field.entryValue site message = .ok value ∧ (value.value settings site).Yields r leaf r' ∧
      typing = { type := .map leaf, multiplicity := .map, mapEntry := some entry.fullName }) ∨
    ¬ field.IsMap r.catalog site.message ∧
      ∃ leaf, (field.value settings site).Yields r leaf r' ∧ typing = field.plainTyping leaf := by
  rw [Field.typing, ResolveM.yields_bind_iff] at h
  obtain ⟨s, next, hget, h⟩ := h
  obtain ⟨rfl, rfl⟩ := ResolveM.yields_get_iff.1 hget
  rw [ResolveM.yields_bind_iff] at h
  obtain ⟨found, next, hlift, h⟩ := h
  obtain ⟨hentry, rfl⟩ := ResolveM.yields_lift_iff.1 hlift
  cases found with
  | none =>
    obtain ⟨leaf, hvalue, rfl⟩ := ResolveM.yields_map_iff.1 h
    exact .inr ⟨not_isMap_of_plain hentry, leaf, hvalue, rfl⟩
  | some found =>
    obtain ⟨entry, message⟩ := found
    simp only [ResolveM.yields_bind_iff, ResolveM.yields_lift_iff, ResolveM.yields_pure_iff] at h
    obtain ⟨value, next, ⟨hvalueField, rfl⟩, leaf, last, hvalue, rfl, rfl⟩ := h
    exact .inl ⟨entry, message, value, leaf, mapEntry?_eq_some_iff.1 hentry, hvalueField, hvalue,
      rfl⟩

/-- The field is the member of a oneof that was written as such. -/
def IsOneofMember (field : Field) : Prop :=
  field.oneofIndex.isSome = true ∧ field.proto3Optional = false

/-- The typing of a map with the given entry type. Its leaf is the type of a value of the
entry's first field numbered 2, whatever the label of that field is. -/
structure MapShape (settings : Settings) (site : FieldSite) (r : Resolver) (typing : FieldTyping)
    (r' : Resolver) (entry : DeclaredType) (message : Message) (value : Field) (leaf : ValueType) :
    Prop where
  first : message.fields.find? (·.number = some 2) = some value
  type : typing.type = .map leaf
  multiplicity : typing.multiplicity = .map
  mapEntry : typing.mapEntry = some entry.fullName
  anyLabel : ∀ label, (({ value with label } : Field).value settings site).Yields r leaf r'
  alone : ∀ label ≠ Label.repeated, ∃ single,
    (({ value with label } : Field).typing settings site).Yields r single r' ∧ single.type = leaf

/-- What the typing of a field shows of the field. -/
structure Shape (settings : Settings) (site : FieldSite) (field : Field) (r : Resolver)
    (typing : FieldTyping) (r' : Resolver) : Prop where
  shallow : typing.type.IsLeaf ∨
    ∃ leaf, leaf.IsLeaf ∧ (typing.type = .array leaf ∨ typing.type = .map leaf)
  isMap_type : (∃ leaf, typing.type = .map leaf) ↔ field.IsMap r.catalog site.message
  isMap_multiplicity : typing.multiplicity = .map ↔ field.IsMap r.catalog site.message
  isMap_mapEntry : typing.mapEntry.isSome = true ↔ field.IsMap r.catalog site.message
  ofMap : ∀ entry message, field.IsMapOf r.catalog site.message entry message →
    ∃ value leaf, MapShape settings site r typing r' entry message value leaf
  isArray_type : (∃ leaf, typing.type = .array leaf) ↔
    field.label = .repeated ∧ ¬ field.IsMap r.catalog site.message
  isArray_multiplicity : typing.multiplicity = .repeated ↔
    field.label = .repeated ∧ ¬ field.IsMap r.catalog site.message
  single_type : typing.type.IsLeaf ↔ field.label ≠ .repeated
  single_oneofMember : typing.multiplicity = .oneofMember ↔
    field.label ≠ .repeated ∧ field.IsOneofMember
  single_singular : typing.multiplicity = .singular ↔
    field.label ≠ .repeated ∧ ¬ field.IsOneofMember

theorem plainTyping_of_repeated (hlabel : field.label = .repeated) (type : ValueType) :
    field.plainTyping type = { type := .array type, multiplicity := .repeated } := if_pos hlabel

theorem plainTyping_of_single (hlabel : field.label ≠ .repeated) (type : ValueType) :
    (field.plainTyping type).type = type ∧ (field.plainTyping type).mapEntry = none ∧
      (field.IsOneofMember ∧ (field.plainTyping type).multiplicity = .oneofMember ∨
        ¬ field.IsOneofMember ∧ (field.plainTyping type).multiplicity = .singular) := by
  unfold plainTyping IsOneofMember
  rw [if_neg hlabel]
  split
  · next honeof =>
    rw [Bool.and_eq_true, Bool.not_eq_true'] at honeof
    exact ⟨rfl, rfl, .inl ⟨honeof, rfl⟩⟩
  · next honeof =>
    rw [Bool.and_eq_true, Bool.not_eq_true'] at honeof
    exact ⟨rfl, rfl, .inr ⟨honeof, rfl⟩⟩

/-- The value field of a map's entry type is mapped like a field of its own. -/
theorem mapShape {entry : DeclaredType} {message : Message} {value : Field} {leaf : ValueType}
    (hvalue : field.entryValue site message = .ok value)
    (hleaf : (value.value settings site).Yields r leaf r') :
    MapShape settings site r
      { type := .map leaf, multiplicity := .map, mapEntry := some entry.fullName } r'
      entry message value leaf where
  first := (entryValue_eq_ok_iff.1 hvalue).1
  type := rfl
  multiplicity := rfl
  mapEntry := rfl
  anyLabel label := by
    rw [value_with_label]
    exact hleaf
  alone label hlabel := by
    have hne : ({ value with label } : Field).label ≠ .repeated := hlabel
    rw [← value_with_label settings site value label] at hleaf
    exact ⟨_, yields_typing_of_single hne hleaf, (plainTyping_of_single hne leaf).1⟩

theorem shape_of_map {entry : DeclaredType} {message : Message} {value : Field} {leaf : ValueType}
    (hmap : field.IsMapOf r.catalog site.message entry message)
    (hvalue : field.entryValue site message = .ok value)
    (hleaf : (value.value settings site).Yields r leaf r') :
    field.Shape settings site r
      { type := .map leaf, multiplicity := .map, mapEntry := some entry.fullName } r' := by
  have hisMap : field.IsMap r.catalog site.message := ⟨entry, message, hmap⟩
  refine ⟨.inr ⟨leaf, isLeaf_of_yields_value hleaf, .inr rfl⟩, ?_, ?_, ?_, ?_, ?_, ?_, ?_, ?_, ?_⟩
  · exact ⟨fun _ => hisMap, fun _ => ⟨leaf, rfl⟩⟩
  · exact ⟨fun _ => hisMap, fun _ => rfl⟩
  · exact ⟨fun _ => hisMap, fun _ => rfl⟩
  · intro entry' message' hmap'
    obtain ⟨rfl, rfl⟩ := hmap.unique hmap'
    exact ⟨value, leaf, mapShape hvalue hleaf⟩
  · simp [hisMap]
  · simp [hisMap]
  · simp [ValueType.IsLeaf, hmap.repeated]
  · simp [hmap.repeated]
  · simp [hmap.repeated]

theorem shape_of_plain {leaf : ValueType} (hmap : ¬ field.IsMap r.catalog site.message)
    (hleaf : (field.value settings site).Yields r leaf r') :
    field.Shape settings site r (field.plainTyping leaf) r' := by
  have hisLeaf := isLeaf_of_yields_value hleaf
  have hnone : ∀ entry message, ¬ field.IsMapOf r.catalog site.message entry message :=
    fun entry message h => hmap ⟨entry, message, h⟩
  by_cases hlabel : field.label = .repeated
  · rw [plainTyping_of_repeated hlabel]
    refine ⟨.inr ⟨leaf, hisLeaf, .inl rfl⟩, ?_, ?_, ?_, ?_, ?_, ?_, ?_, ?_, ?_⟩
    · simp [hmap]
    · simp [hmap]
    · simp [hmap]
    · exact fun entry message h => absurd h (hnone entry message)
    · simp [hlabel, hmap]
    · simp [hlabel, hmap]
    · simp [ValueType.IsLeaf, hlabel]
    · simp [hlabel]
    · simp [hlabel]
  · obtain ⟨htype, hentry, hmultiplicity⟩ := plainTyping_of_single hlabel leaf
    have hmap' : ∀ inner, leaf ≠ .map inner := by
      rintro inner rfl
      exact hisLeaf
    have harray : ∀ inner, leaf ≠ .array inner := by
      rintro inner rfl
      exact hisLeaf
    refine ⟨.inl (htype.symm ▸ hisLeaf), ?_, ?_, ?_, ?_, ?_, ?_, ?_, ?_, ?_⟩
    · simp [htype, hmap, hmap']
    · rcases hmultiplicity with ⟨-, hm⟩ | ⟨-, hm⟩ <;> simp [hm, hmap]
    · simp [hentry, hmap]
    · exact fun entry message h => absurd h (hnone entry message)
    · simp [htype, hlabel, harray]
    · rcases hmultiplicity with ⟨-, hm⟩ | ⟨-, hm⟩ <;> simp [hm, hlabel]
    · simp [htype, hisLeaf, hlabel]
    · rcases hmultiplicity with ⟨hone, hm⟩ | ⟨hone, hm⟩ <;> simp [hm, hlabel, hone]
    · rcases hmultiplicity with ⟨hone, hm⟩ | ⟨hone, hm⟩ <;> simp [hm, hlabel, hone]

/-- **The shape of a typed field.** -/
theorem shape_of_yields {typing : FieldTyping}
    (h : (field.typing settings site).Yields r typing r') :
    field.Shape settings site r typing r' := by
  rcases typing_cases h with ⟨entry, message, value, leaf, hmap, hvalue, hleaf, rfl⟩ |
    ⟨hmap, leaf, hleaf, rfl⟩
  · exact shape_of_map hmap hvalue hleaf
  · exact shape_of_plain hmap hleaf

end Field
end ProtoTypings
