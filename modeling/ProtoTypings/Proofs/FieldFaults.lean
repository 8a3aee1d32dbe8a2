import ProtoTypings.Proofs.DirectImports
import ProtoTypings.Proofs.FieldShapes
/-!
# Faults of fields

Which fault the typing of a field ends with, told from the descriptors alone. Three things
can happen: the field has no shape that could be typed, a type that it needs is declared
nowhere, or it is typed. What a resolver remembers makes no difference, as long as it was
looked up in scopes without NUL.

**One exception.** A repeated field with the code for messages may be a map, so its type is
looked up before anything else. If it has no type name, the search fails, and the fault says
that the type is unresolved and not that the name is missing.

**Results.**
* `ResolveM.EndsBy`: the three ways to end, and the lemmas that put them together.
* `Field.endsBy_value`, `Field.endsBy_typing`: how one value and a whole field end.
* `Field.typing_faults`: each fault by its exact condition.
-/
namespace ProtoTypings

/-! ## Ways to end -/

namespace ResolveM

variable {α β : Type} {x : ResolveM α} {f : α → ResolveM β} {r : Resolver} {kind : String}

/-- The computation ends with a fault that is reported under the given name. -/
def FailsAs (x : ResolveM α) (r : Resolver) (kind : String) : Prop :=
  ∃ fault r', x.Fails r fault r' ∧ fault.kind = kind

def Ends (x : ResolveM α) (r : Resolver) : Prop :=
  ∃ a r', x.Yields r a r'

theorem FailsAs.not_ends (h : x.FailsAs r kind) : ¬ x.Ends r := by
  intro hends
  obtain ⟨fault, r', hfails, -⟩ := h
  obtain ⟨a, r'', hyields⟩ := hends
  unfold Fails at hfails
  unfold Yields at hyields
  rw [hfails] at hyields
  cases hyields

theorem FailsAs.unique {kind' : String} (h : x.FailsAs r kind) (h' : x.FailsAs r kind') :
    kind = kind' := by
  obtain ⟨fault, r', hfails, rfl⟩ := h
  obtain ⟨fault', r'', hfails', rfl⟩ := h'
  unfold Fails at hfails hfails'
  rw [hfails] at hfails'
  cases hfails'
  rfl

theorem FailsAs.bind (h : x.FailsAs r kind) : (x >>= f).FailsAs r kind := by
  obtain ⟨fault, r', hfails, hkind⟩ := h
  exact ⟨fault, r', fails_bind_iff.2 (.inl hfails), hkind⟩

theorem failsAs_bind {a : α} {next : Resolver} (hx : x.Yields r a next)
    (h : (f a).FailsAs next kind) : (x >>= f).FailsAs r kind := by
  obtain ⟨fault, r', hfails, hkind⟩ := h
  exact ⟨fault, r', fails_bind_iff.2 (.inr ⟨a, next, hx, hfails⟩), hkind⟩

theorem ends_bind {a : α} {next : Resolver} (hx : x.Yields r a next) (h : (f a).Ends next) :
    (x >>= f).Ends r := by
  obtain ⟨b, r', hyields⟩ := h
  exact ⟨b, r', yields_bind_iff.2 ⟨a, next, hx, hyields⟩⟩

theorem failsAs_lift {e : Except Fault α} {fault : Fault} (h : e = .error fault) :
    FailsAs (liftM e >>= f) r fault.kind :=
  FailsAs.bind ⟨fault, r, fails_lift_iff.2 ⟨h, rfl⟩, rfl⟩

/-- The computation ends with an unsupported shape if the first condition holds, otherwise
with an unresolved type if the second one holds, and otherwise with a value. -/
structure EndsBy (x : ResolveM α) (r : Resolver) (shapeless dangling : Prop) : Prop where
  unsupported : shapeless → x.FailsAs r "UnsupportedFieldShape"
  unresolved : ¬ shapeless → dangling → x.FailsAs r "UnresolvedType"
  typed : ¬ shapeless → ¬ dangling → x.Ends r

namespace EndsBy

variable {shapeless dangling shapeless' dangling' : Prop}

theorem of_unsupported (hshape : shapeless) (h : x.FailsAs r "UnsupportedFieldShape") :
    x.EndsBy r shapeless dangling :=
  ⟨fun _ => h, fun hnot => absurd hshape hnot, fun hnot => absurd hshape hnot⟩

theorem of_unresolved (hshape : ¬ shapeless) (hdangling : dangling)
    (h : x.FailsAs r "UnresolvedType") : x.EndsBy r shapeless dangling :=
  ⟨fun hs => absurd hs hshape, fun _ _ => h, fun _ hnot => absurd hdangling hnot⟩

theorem of_ends (hshape : ¬ shapeless) (hdangling : ¬ dangling) (h : x.Ends r) :
    x.EndsBy r shapeless dangling :=
  ⟨fun hs => absurd hs hshape, fun _ hd => absurd hd hdangling, fun _ _ => h⟩

theorem congr (h : x.EndsBy r shapeless dangling) (hshape : shapeless' ↔ shapeless)
    (hdangling : dangling' ↔ dangling) : x.EndsBy r shapeless' dangling' := by
  rw [hshape, hdangling]
  exact h

/-- What comes after a value decides. -/
theorem bind {a : α} {next : Resolver} (hx : x.Yields r a next)
    (h : (f a).EndsBy next shapeless dangling) : (x >>= f).EndsBy r shapeless dangling :=
  ⟨fun hs => failsAs_bind hx (h.unsupported hs),
    fun hs hd => failsAs_bind hx (h.unresolved hs hd), fun hs hd => ends_bind hx (h.typed hs hd)⟩

theorem get {f : Resolver → ResolveM β} (h : (f r).EndsBy r shapeless dangling) :
    EndsBy ((MonadState.get : ResolveM Resolver) >>= f) r shapeless dangling :=
  bind (yields_get_iff.2 ⟨rfl, rfl⟩) h

theorem lift {e : Except Fault α} {a : α} (he : e = .ok a)
    (h : (f a).EndsBy r shapeless dangling) : EndsBy (liftM e >>= f) r shapeless dangling :=
  bind (yields_lift_iff.2 ⟨he, rfl⟩) h

/-- What is done with a value at the end does not fail. -/
theorem bind_pure {g : α → β} (h : x.EndsBy r shapeless dangling) :
    EndsBy (x >>= fun a => pure (g a)) r shapeless dangling := by
  refine ⟨fun hs => (h.unsupported hs).bind, fun hs hd => (h.unresolved hs hd).bind,
    fun hs hd => ?_⟩
  obtain ⟨a, r', hyields⟩ := h.typed hs hd
  exact ends_bind hyields ⟨g a, r', yields_pure_iff.2 ⟨rfl, rfl⟩⟩

theorem map {g : α → β} (h : x.EndsBy r shapeless dangling) :
    (g <$> x).EndsBy r shapeless dangling := by
  rw [map_eq_pure_bind]
  exact h.bind_pure

/-- A computation ends in one way only, so each condition is exact. -/
theorem exact (h : x.EndsBy r shapeless dangling) :
    (x.FailsAs r "UnsupportedFieldShape" ↔ shapeless) ∧
      (x.FailsAs r "UnresolvedType" ↔ ¬ shapeless ∧ dangling) ∧
      (x.Ends r ↔ ¬ shapeless ∧ ¬ dangling) := by
  by_cases hs : shapeless
  · have hfails := h.unsupported hs
    have hkind : ¬ x.FailsAs r "UnresolvedType" := fun h' => absurd (hfails.unique h') (by decide)
    simp [hs, hfails, hkind, hfails.not_ends]
  · by_cases hd : dangling
    · have hfails := h.unresolved hs hd
      have hkind : ¬ x.FailsAs r "UnsupportedFieldShape" :=
        fun h' => absurd (hfails.unique h') (by decide)
      simp [hs, hd, hfails, hkind, hfails.not_ends]
    · have hends := h.typed hs hd
      have hkind : ∀ kind, ¬ x.FailsAs r kind := fun kind h' => h'.not_ends hends
      simp [hs, hd, hends, hkind]

end EndsBy
end ResolveM

/-! ## What is wrong with a field -/

namespace Field

/-- The field itself does not say what its type is: its code is unknown, it has neither a
code nor a name, or its code asks for a name that is missing. -/
inductive Shapeless (field : Field) : Prop
  | unknown {code : Int32} : field.typeCode = some code → FieldType.ofCode? code = none →
      Shapeless field
  | untyped : field.typeCode = none → field.typeName = "" → Shapeless field
  | unnamed {code : Int32} {kind : FieldType} : field.typeCode = some code →
      FieldType.ofCode? code = some kind → kind.isNamed = true → field.typeName = "" →
      Shapeless field

/-- The type of the field is told by a name. -/
inductive NeedsName (field : Field) : Prop
  | inferred : field.typeCode = none → NeedsName field
  | explicit {code : Int32} {kind : FieldType} : field.typeCode = some code →
      FieldType.ofCode? code = some kind → kind.isNamed = true → NeedsName field

/-- The type name of the field is needed and means nothing in the scope. -/
def Dangling (catalog : Catalog) (scope : String) (field : Field) : Prop :=
  field.NeedsName ∧ catalog.resolve? field.typeName scope = none

/-- A repeated field that has the code for messages and no type name. -/
structure IsBlankList (field : Field) : Prop where
  repeated : field.label = .repeated
  code : ∃ code, field.typeCode = some code ∧ FieldType.ofCode? code = some .message
  unnamed : field.typeName = ""

/-- The entry type of a map lacks a key or a value, or its value field has no shape. -/
def EntryIsBroken (message : Message) : Prop :=
  (∀ key ∈ message.fields, key.number ≠ some 1) ∨
    (∀ value ∈ message.fields, value.number ≠ some 2) ∨
    ∃ value, message.fields.find? (·.number = some 2) = some value ∧ value.Shapeless

/-- The field has no shape that could be typed. -/
def Unsupported (catalog : Catalog) (scope : String) (field : Field) : Prop :=
  field.Shapeless ∧ ¬ field.IsBlankList ∨
    ∃ entry message, field.IsMapOf catalog scope entry message ∧ EntryIsBroken message

/-- The type of the field, or that of its values if it is a map, is needed and means nothing
in the scope. -/
def Unresolved (catalog : Catalog) (scope : String) (field : Field) : Prop :=
  field.Dangling catalog scope ∨
    ∃ entry message value, field.IsMapOf catalog scope entry message ∧
      message.fields.find? (·.number = some 2) = some value ∧ value.Dangling catalog scope

variable {catalog : Catalog} {settings : Settings} {site : FieldSite} {field : Field}
  {scope : String} {r : Resolver}

/-- A field whose kind is known lacks at most its name. -/
theorem HasKind.shapeless_iff {kind : FieldType} (h : field.HasKind catalog scope kind) :
    field.Shapeless ↔ kind.isNamed = true ∧ field.typeName = "" := by
  cases h with
  | @explicit code _ hcode hkind =>
    constructor
    · intro hs
      cases hs with
      | unknown hcode' hnone => simp_all
      | untyped hcode' _ => simp_all
      | unnamed hcode' hkind' hnamed hname => simp_all
    · rintro ⟨hnamed, hname⟩
      exact .unnamed hcode hkind hnamed hname
  | inferred hcode hname _ =>
    constructor
    · intro hs
      cases hs with
      | unknown hcode' _ => simp_all
      | untyped _ hname' => exact absurd hname' hname
      | unnamed hcode' _ _ _ => simp_all
    · exact fun h => absurd h.2 hname

theorem HasKind.needsName_iff {kind : FieldType} (h : field.HasKind catalog scope kind) :
    field.NeedsName ↔ kind.isNamed = true := by
  cases h with
  | explicit hcode hkind =>
    constructor
    · intro hneeds
      cases hneeds with
      | inferred hcode' => simp_all
      | explicit hcode' hkind' hnamed => simp_all
    · exact fun hnamed => .explicit hcode hkind hnamed
  | @inferred entry hcode _ _ =>
    refine iff_of_true (.inferred hcode) ?_
    split <;> rfl

theorem HasKind.code_of_unnamed {kind : FieldType} (h : field.HasKind catalog scope kind)
    (hname : field.typeName = "") :
    ∃ code, field.typeCode = some code ∧ FieldType.ofCode? code = some kind := by
  cases h with
  | @explicit code _ hcode hkind => exact ⟨code, hcode, hkind⟩
  | inferred _ hname' _ => exact absurd hname hname'

/-- A kind that is not known is the fault of the code, of both being absent, or of the name. -/
theorem kind_eq_error {fault : Fault} (h : field.kind catalog site = .error fault) :
    field.Shapeless ∧ ¬ field.IsBlankList ∧ fault.kind = "UnsupportedFieldShape" ∨
      ¬ field.Shapeless ∧ field.Dangling catalog site.message ∧ fault.kind = "UnresolvedType" := by
  unfold Field.kind at h
  cases hcode : field.typeCode with
  | some code =>
    cases hkind : FieldType.ofCode? code with
    | some kind => simp [hcode, hkind] at h
    | none =>
      simp only [hcode, hkind, Except.error.injEq] at h
      refine .inl ⟨.unknown hcode hkind, ?_, h ▸ rfl⟩
      rintro ⟨-, ⟨code', hcode', hmessage⟩, -⟩
      simp_all
  | none =>
    by_cases hname : field.typeName = ""
    · simp only [hcode, hname, if_true, Except.error.injEq] at h
      refine .inl ⟨.untyped hcode hname, ?_, h ▸ rfl⟩
      rintro ⟨-, ⟨code', hcode', -⟩, -⟩
      simp_all
    · cases htarget : field.target catalog site with
      | ok entry => simp [hcode, hname, htarget, Except.map] at h
      | error found =>
        simp only [hcode, hname, htarget, Except.map, if_false, Except.error.injEq] at h
        obtain ⟨hnone, hfault⟩ := target_eq_error_iff.1 htarget
        refine .inr ⟨?_, ⟨.inferred hcode, hnone⟩, by rw [← h, hfault]; rfl⟩
        rintro (⟨hcode', -⟩ | ⟨-, hname'⟩ | ⟨hcode', -⟩) <;> simp_all

/-- The search for a map's entry fails with the fault of the kind, or because the type of a
repeated message means nothing. -/
theorem mapEntry?_eq_error {fault : Fault} (h : field.mapEntry? catalog site = .error fault) :
    (field.Shapeless ∧ ¬ field.IsBlankList) ∧ fault.kind = "UnsupportedFieldShape" ∨
      ¬ (field.Shapeless ∧ ¬ field.IsBlankList) ∧ field.Dangling catalog site.message ∧
        fault.kind = "UnresolvedType" := by
  unfold mapEntry? at h
  split at h
  · next hlabel =>
    cases hkind : field.kind catalog site with
    | error found =>
      simp only [hkind, bind, Except.bind, Except.error.injEq] at h
      subst h
      rcases kind_eq_error hkind with ⟨hs, hblank, hfault⟩ | ⟨hs, hdangling, hfault⟩
      · exact .inl ⟨⟨hs, hblank⟩, hfault⟩
      · exact .inr ⟨fun hboth => hs hboth.1, hdangling, hfault⟩
    | ok kind =>
      simp only [hkind, bind, Except.bind] at h
      split at h
      · next hmessage =>
        have hkind' : field.HasKind catalog site.message .message :=
          kind_eq_ok_iff.1 (hmessage ▸ hkind)
        cases htarget : field.target catalog site with
        | ok entry =>
          rw [htarget] at h
          cases h
        | error found =>
          simp only [htarget, Except.error.injEq] at h
          obtain ⟨hnone, hfault⟩ := target_eq_error_iff.1 htarget
          refine .inr ⟨?_, ⟨hkind'.needsName_iff.2 rfl, hnone⟩, by rw [← h, hfault]; rfl⟩
          rintro ⟨hs, hblank⟩
          have hname := (hkind'.shapeless_iff.1 hs).2
          exact hblank ⟨hlabel, hkind'.code_of_unnamed hname, hname⟩
      · cases h
  · cases h

/-- A repeated message without a type name is no plain field. -/
theorem not_isBlankList_of_plain (hempty : ∀ scope, catalog.resolve? "" scope = none)
    (h : field.mapEntry? catalog site = .ok none) : ¬ field.IsBlankList := by
  rintro ⟨hlabel, ⟨code, hcode, hmessage⟩, hname⟩
  have hkind : field.kind catalog site = .ok .message :=
    kind_eq_ok_iff.2 (.explicit hcode hmessage)
  have htarget : field.target catalog site =
      .error (.unresolvedType field.typeName site.file (field.context site)) :=
    target_eq_error_iff.2 ⟨hname ▸ hempty site.message, rfl⟩
  unfold mapEntry? at h
  simp [hlabel, hkind, htarget, bind, Except.bind] at h

theorem entryValue_eq_error {message : Message} {fault : Fault}
    (h : field.entryValue site message = .error fault) :
    EntryIsBroken message ∧ fault.kind = "UnsupportedFieldShape" := by
  unfold entryValue at h
  cases hfound : message.fields.find? (·.number = some 2) with
  | none =>
    simp only [hfound, Except.error.injEq] at h
    simp only [List.find?_eq_none, decide_eq_true_eq] at hfound
    exact ⟨.inr (.inl hfound), h ▸ rfl⟩
  | some value =>
    simp only [hfound] at h
    split at h
    · cases h
    · next hkey =>
      rw [Except.error.injEq] at h
      simp only [List.any_eq_true, decide_eq_true_eq, not_exists, not_and] at hkey
      exact ⟨.inl hkey, h ▸ rfl⟩

/-- An entry type that has its two fields is broken if the value field is. -/
theorem entryIsBroken_iff {message : Message} {value : Field}
    (h : field.entryValue site message = .ok value) : EntryIsBroken message ↔ value.Shapeless := by
  obtain ⟨hvalue, key, hkey, hnumber⟩ := entryValue_eq_ok_iff.1 h
  have hmem := List.mem_of_find?_eq_some hvalue
  have hnumber' : value.number = some 2 := by simpa using List.find?_some hvalue
  constructor
  · rintro (hnone | hnone | ⟨found, hfound, hs⟩)
    · exact absurd hnumber (hnone key hkey)
    · exact absurd hnumber' (hnone value hmem)
    · rw [hvalue, Option.some.injEq] at hfound
      exact hfound ▸ hs
  · exact fun hs => .inr (.inr ⟨value, hvalue, hs⟩)

end Field

/-! ## How fields end -/

/-- What a resolver remembers means something. -/
def Resolver.Grounded (r : Resolver) : Prop :=
  ∀ (q : Mention) (reference : Reference), r.known.lookup q.key = some reference →
    q.target? r.catalog ≠ none

theorem Resolver.Sound.grounded {r : Resolver} (h : r.Sound Text.NulFree)
    (hnames : NulFreeCatalog r.catalog) : r.Grounded := by
  intro q reference hknown
  obtain ⟨entry, htarget, -⟩ := h.known_target hnames hknown
  simp [htarget]

theorem ResolveM.endsBy_path {r : Resolver} (hr : r.Grounded) (text scope context : String) :
    (ResolveM.path text scope context).EndsBy r False (r.catalog.resolve? text scope = none) := by
  rcases h : r.resolve text scope context with ⟨fault | reference, next⟩
  · obtain ⟨-, htarget, rfl, -⟩ := (Resolver.resolve_eq_error_iff (q := ⟨text, scope⟩)).1 h
    exact .of_unresolved id htarget ⟨_, next, ResolveM.fails_bind_iff.2 (.inl h), rfl⟩
  · refine .of_ends id ?_
      ⟨reference.path, next, ResolveM.yields_path_iff (q := ⟨text, scope⟩).2 ⟨reference, h, rfl⟩⟩
    obtain ⟨hknown, -⟩ | ⟨-, entry, _, htarget, -⟩ :=
      (Resolver.resolve_eq_ok_iff (q := ⟨text, scope⟩)).1 h
    · exact hr ⟨text, scope⟩ reference hknown
    · intro hnone
      rw [Mention.target?, hnone] at htarget
      cases htarget

namespace Field

variable {settings : Settings} {site : FieldSite} {field : Field} {r : Resolver}

theorem endsBy_namedPath (hr : r.Grounded) :
    (field.namedPath site).EndsBy r (field.typeName = "")
      (r.catalog.resolve? field.typeName site.message = none) := by
  unfold namedPath
  by_cases hname : field.typeName = ""
  · rw [if_pos hname]
    exact .of_unsupported hname ⟨_, r, ResolveM.fails_throw_iff.2 ⟨rfl, rfl⟩, rfl⟩
  · rw [if_neg hname]
    exact (ResolveM.endsBy_path hr _ _ _).congr (iff_of_false hname id) .rfl

theorem endsBy_valueOfKind (hr : r.Grounded) (kind : FieldType) :
    (field.valueOfKind settings site kind).EndsBy r (kind.isNamed = true ∧ field.typeName = "")
      (kind.isNamed = true ∧ r.catalog.resolve? field.typeName site.message = none) := by
  cases kind with
  | enum | message | group =>
    exact (endsBy_namedPath hr).map.congr (and_iff_right rfl) (and_iff_right rfl)
  | _ =>
    exact .of_ends (by simp [FieldType.isNamed]) (by simp [FieldType.isNamed])
      ⟨_, r, ResolveM.yields_pure_iff.2 ⟨rfl, rfl⟩⟩

/-- **How one value of a field ends.** -/
theorem endsBy_value (hr : r.Grounded) :
    (field.value settings site).EndsBy r field.Shapeless
      (field.Dangling r.catalog site.message) := by
  unfold value
  refine .get ?_
  cases hkind : field.kind r.catalog site with
  | error fault =>
    rcases kind_eq_error hkind with ⟨hs, -, hfault⟩ | ⟨hs, hdangling, hfault⟩
    · exact .of_unsupported hs (hfault ▸ ResolveM.failsAs_lift rfl)
    · exact .of_unresolved hs hdangling (hfault ▸ ResolveM.failsAs_lift rfl)
  | ok kind =>
    have hkind' := kind_eq_ok_iff.1 hkind
    refine .lift rfl ((endsBy_valueOfKind hr kind).congr hkind'.shapeless_iff ?_)
    unfold Dangling
    rw [hkind'.needsName_iff]

/-- How the values of a map end. -/
theorem endsBy_entryValue (hr : r.Grounded) (message : Message) (g : ValueType → FieldTyping) :
    ResolveM.EndsBy (do
        let valueField ← field.entryValue site message
        let type ← valueField.value settings site
        pure (g type)) r (EntryIsBroken message)
      (∃ value, message.fields.find? (·.number = some 2) = some value ∧
        value.Dangling r.catalog site.message) := by
  cases hvalue : field.entryValue site message with
  | error fault =>
    obtain ⟨hbroken, hfault⟩ := entryValue_eq_error hvalue
    exact .of_unsupported hbroken (hfault ▸ ResolveM.failsAs_lift rfl)
  | ok value =>
    refine .lift rfl ?_
    have hfound := (entryValue_eq_ok_iff.1 hvalue).1
    refine (endsBy_value hr).bind_pure.congr (entryIsBroken_iff hvalue) ?_
    simp [hfound]

/-- **How a field ends.** -/
theorem endsBy_typing (hr : r.Grounded) (hempty : ∀ scope, r.catalog.resolve? "" scope = none) :
    (field.typing settings site).EndsBy r (field.Unsupported r.catalog site.message)
      (field.Unresolved r.catalog site.message) := by
  unfold typing
  refine .get ?_
  cases hmap : field.mapEntry? r.catalog site with
  | error fault =>
    have hnone : ∀ entry message, ¬ field.IsMapOf r.catalog site.message entry message := by
      intro entry message h
      rw [mapEntry?_eq_some_iff.2 h] at hmap
      cases hmap
    rcases mapEntry?_eq_error hmap with ⟨hs, hfault⟩ | ⟨hs, hdangling, hfault⟩
    · exact .of_unsupported (.inl hs) (hfault ▸ ResolveM.failsAs_lift rfl)
    · refine .of_unresolved ?_ (.inl hdangling) (hfault ▸ ResolveM.failsAs_lift rfl)
      rintro (hs' | ⟨entry, message, h, -⟩)
      · exact hs hs'
      · exact hnone entry message h
  | ok found =>
    refine .lift rfl ?_
    cases found with
    | none =>
      have hplain : ∀ entry message, ¬ field.IsMapOf r.catalog site.message entry message :=
        fun entry message h => not_isMap_of_plain hmap ⟨entry, message, h⟩
      have hblank := not_isBlankList_of_plain hempty hmap
      refine (endsBy_value hr).map.congr ?_ ?_
      · simp [Unsupported, hplain, hblank]
      · simp [Unresolved, hplain]
    | some found =>
      obtain ⟨entry, message⟩ := found
      have hentry := mapEntry?_eq_some_iff.1 hmap
      have hname : field.typeName ≠ "" := by
        intro hname
        have htarget := hentry.target
        rw [hname, hempty] at htarget
        cases htarget
      have hshape : ¬ field.Shapeless := fun hs => hname (hentry.kind.shapeless_iff.1 hs).2
      refine (endsBy_entryValue hr message _).congr ?_ ?_
      · constructor
        · rintro (⟨hs, -⟩ | ⟨entry', message', hentry', hbroken⟩)
          · exact absurd hs hshape
          · rwa [← (hentry.unique hentry').2]
        · exact fun hbroken => .inr ⟨entry, message, hentry, hbroken⟩
      · constructor
        · rintro (⟨-, hnone⟩ | ⟨entry', message', value, hentry', hvalue⟩)
          · rw [hentry.target] at hnone
            cases hnone
          · rw [(hentry.unique hentry').2] at hvalue
            exact ⟨value, hvalue⟩
        · rintro ⟨value, hvalue⟩
          exact .inr ⟨entry, message, value, hentry, hvalue⟩

/-- **Faults of fields.** Among files whose types have names that can be segments and are free
of NUL, and after any history of calls from scopes without NUL, the typing of a field ends with
an unsupported shape exactly if the field is `Unsupported`, otherwise with an unresolved type
exactly if it is `Unresolved`, and otherwise with a value. -/
theorem typing_faults {files : List File} {catalog : Catalog}
    (hfiles : Catalog.ofFiles files = .ok catalog) (hnamed : ∀ file ∈ files, file.WellNamed)
    (hnul : ∀ file ∈ files, file.NulFree) (path : String) {calls : List Call}
    (hcalls : ∀ call ∈ calls, call.LooksUpIn Text.NulFree) (settings : Settings)
    (site : FieldSite) (field : Field) :
    ((field.typing settings site).FailsAs (Call.after (.ofFile catalog path) calls)
        "UnsupportedFieldShape" ↔ field.Unsupported catalog site.message) ∧
      ((field.typing settings site).FailsAs (Call.after (.ofFile catalog path) calls)
        "UnresolvedType" ↔
          ¬ field.Unsupported catalog site.message ∧ field.Unresolved catalog site.message) ∧
      ((field.typing settings site).Ends (Call.after (.ofFile catalog path) calls) ↔
        ¬ field.Unsupported catalog site.message ∧ ¬ field.Unresolved catalog site.message) := by
  have hcatalog : (Call.after (.ofFile catalog path) calls).catalog = catalog :=
    (Call.after_extends _ calls).catalog
  have hsound := Call.after_sound (Resolver.sound_ofFile Text.NulFree catalog path) hcalls
  have hgrounded : (Call.after (.ofFile catalog path) calls).Grounded :=
    hsound.grounded (hcatalog.symm ▸ Resolver.nulFreeCatalog_of_files hfiles hnul)
  have hempty : ∀ scope, catalog.resolve? "" scope = none :=
    Catalog.resolve?_empty (Catalog.forall_types hfiles fun file hfile =>
      (hnamed file hfile).exists_scope)
  have hends : (field.typing settings site).EndsBy (Call.after (.ofFile catalog path) calls)
      (field.Unsupported catalog site.message) (field.Unresolved catalog site.message) := by
    have h : (field.typing settings site).EndsBy _ _ _ :=
      endsBy_typing hgrounded (hcatalog.symm ▸ hempty)
    rwa [hcatalog] at h
  exact hends.exact

end Field

/-! ## A sample -/

namespace Sample

/-- A map entry whose value has an unknown type code. -/
def itemsEntry : Message where
  name := "ItemsEntry"
  fields :=
    [{ name := "key", number := some 1, typeCode := some 9 },
     { name := "value", number := some 2, typeCode := some 99 }]
  isMapEntry := true

def cart : File where
  name := some "cart.proto"
  package := some "cart"
  messages := [{ name := "Cart", nested := [itemsEntry] }]

/-- A map field without a type code. -/
def items : Field where
  name := "items"
  number := some 1
  label := .repeated
  typeName := "ItemsEntry"

/-- A repeated message without a type name. -/
def blank : Field where
  name := "items"
  number := some 1
  label := .repeated
  typeCode := some 11

def pair : Catalog :=
  let file : File := { name := some "c.proto", messages := [{ name := "a" }, { name := "c" }] }
  ⟨[file], file.types⟩

/-- A field whose type name has a NUL. -/
def stray : Field where
  name := "y"
  number := some 1
  typeCode := some 11
  typeName := "b\x00c"

end Sample

/-- The fault of a map's value is the fault of the map. -/
theorem Field.typing_faults_cart :
    Catalog.ofFiles [Sample.cart] = .ok ⟨[Sample.cart], Sample.cart.types⟩ ∧
      (∀ file ∈ [Sample.cart], file.WellNamed) ∧ (∀ file ∈ [Sample.cart], file.NulFree) ∧
      (∀ call ∈ [Call.resolve "Cart" "cart" "first"], call.LooksUpIn Text.NulFree) ∧
      (Sample.items.typing {} ⟨"cart.Cart", "cart.proto"⟩).FailsAs
        (Call.after (.ofFile ⟨[Sample.cart], Sample.cart.types⟩ "cart.proto")
          [.resolve "Cart" "cart" "first"]) "UnsupportedFieldShape" := by
  have hfiles : Catalog.ofFiles [Sample.cart] = .ok ⟨[Sample.cart], Sample.cart.types⟩ := rfl
  have hnamed : ∀ file ∈ [Sample.cart], file.WellNamed := by decide
  have hnul : ∀ file ∈ [Sample.cart], file.NulFree := by decide
  have hcalls : ∀ call ∈ [Call.resolve "Cart" "cart" "first"], call.LooksUpIn Text.NulFree := by
    simp [Call.LooksUpIn, Text.NulFree]
  refine ⟨hfiles, hnamed, hnul, hcalls, ?_⟩
  have htarget : Catalog.resolve? ⟨[Sample.cart], Sample.cart.types⟩ "ItemsEntry" "cart.Cart" =
      some (.ofLocal "cart.proto" "cart" "Cart.ItemsEntry" (.message Sample.itemsEntry)) := rfl
  have hname : Sample.items.typeName ≠ "" := by decide
  have hmap : Sample.items.IsMapOf ⟨[Sample.cart], Sample.cart.types⟩ "cart.Cart"
      (.ofLocal "cart.proto" "cart" "Cart.ItemsEntry" (.message Sample.itemsEntry))
      Sample.itemsEntry := ⟨rfl, Field.HasKind.inferred rfl hname htarget, htarget, rfl, rfl⟩
  have hbroken : Field.EntryIsBroken Sample.itemsEntry :=
    .inr (.inr ⟨_, rfl, .unknown rfl rfl⟩)
  exact (Field.typing_faults hfiles hnamed hnul "cart.proto" hcalls {}
    ⟨"cart.Cart", "cart.proto"⟩ Sample.items).1.2 (.inr ⟨_, _, hmap, hbroken⟩)

/-- In a scope with NUL a remembered reference is found for a text that means nothing. -/
example :
    Sample.pair.resolve? "b\x00c" "a" = none ∧
      ((Sample.stray.typing {} ⟨"a", "c.proto"⟩).run.run
        (Call.after (.ofFile Sample.pair "c.proto") [.resolve "c" "a\x00b" "first"])).1 =
          .ok { type := .named "c", multiplicity := .singular } := by decide

/-- A repeated message without a type name has no shape, and yet its fault is an unresolved
type. -/
theorem Field.blank_list_unresolved :
    Sample.blank.Shapeless ∧
      (Sample.blank.typing {} ⟨"cart.Cart", "cart.proto"⟩).FailsAs
        (.ofFile ⟨[Sample.cart], Sample.cart.types⟩ "cart.proto") "UnresolvedType" ∧
      ¬ (Sample.blank.typing {} ⟨"cart.Cart", "cart.proto"⟩).FailsAs
        (.ofFile ⟨[Sample.cart], Sample.cart.types⟩ "cart.proto") "UnsupportedFieldShape" := by
  have hfails : (Sample.blank.typing {} ⟨"cart.Cart", "cart.proto"⟩).FailsAs
      (.ofFile ⟨[Sample.cart], Sample.cart.types⟩ "cart.proto") "UnresolvedType" := ⟨_, _, rfl, rfl⟩
  refine ⟨.unnamed rfl rfl rfl rfl, hfails, fun h => ?_⟩
  exact absurd (h.unique hfails) (by decide)

end ProtoTypings
