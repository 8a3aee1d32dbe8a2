import ProtoTypings.Proofs.Counterparts
import ProtoTypings.Proofs.EnclosingSearch
import ProtoTypings.Proofs.FieldShapes
import ProtoTypings.Proofs.OutlineMirror
/-!
# Typing a file twice

Typing one file under two settings and over two catalogs, step by step. The two
runs go through the same descriptors, so they keep in lockstep as long as the
catalogs agree on the texts and scopes of the file.

**Results.**
* `Comparison.Covers`: a file whose texts and scopes the catalogs agree on.
* `Field.lockstep_property`, `Message.lockstep_typing`, `Service.lockstep_typing`:
  one lemma for each kind of declaration.
* `Comparison.typings_lockstep`: what one run makes of the file, the other one
  makes up to the settings, and the same faults end them.
* `Catalog.SameTypes.typings_lockstep`: the same for catalogs in which every
  full name has the same type.
-/
namespace ProtoTypings

variable {k : Comparison} {a b : Settings}

/-! ## Fields -/

namespace Field

variable {site : FieldSite} {field : Field}

theorem follows_target (htext : k.texts field.typeName) :
    Follows k.faults (field.target k.left site) (field.target k.right site) :=
  k.follows_resolve htext _ _ _

theorem follows_kind (htext : k.texts field.typeName) :
    Follows k.faults (field.kind k.left site) (field.kind k.right site) := by
  unfold kind
  split
  · exact .refl _
  · split
    · exact .refl _
    · exact (follows_target htext).map _

theorem follows_mapEntry (htext : k.texts field.typeName) :
    Follows k.faults (field.mapEntry? k.left site) (field.mapEntry? k.right site) := by
  unfold mapEntry?
  split
  · refine (follows_kind htext).bind fun kind _ => ?_
    split
    · exact (follows_target htext).bind fun _ _ => .refl _
    · exact .refl _
  · exact .refl _

/-- The entry type of a map is a type of the catalog. -/
theorem mapEntry?_eq_ok {catalog : Catalog} {entry : DeclaredType} {message : Message}
    (h : field.mapEntry? catalog site = .ok (some (entry, message))) :
    entry ∈ catalog.types ∧ entry.definition = .message message := by
  have hmap := mapEntry?_eq_some_iff.1 h
  exact ⟨Catalog.mem_of_resolve? hmap.target, hmap.definition⟩

theorem mem_of_entryValue {message : Message} {value : Field}
    (h : field.entryValue site message = .ok value) : value ∈ message.fields :=
  List.mem_of_find?_eq_some (entryValue_eq_ok_iff.1 h).1

theorem lockstep_namedPath (htext : k.texts field.typeName) (hscope : k.scopes site.message) :
    k.Lockstep Eq (field.namedPath site) (field.namedPath site) := by
  unfold namedPath
  split
  · exact .throw _
  · exact k.lockstep_path htext hscope _

/-- Only 64-bit integers have types that the settings choose. -/
theorem lockstep_valueOfKind (htext : k.texts field.typeName) (hscope : k.scopes site.message)
    (kind : FieldType) :
    k.Lockstep (ValueType.Counterpart a b kind.isInt64) (field.valueOfKind a site kind)
      (field.valueOfKind b site kind) := by
  cases kind with
  | int64 | uint64 | sint64 | fixed64 | sfixed64 => exact .pure .int64
  | enum | message | group =>
    exact (lockstep_namedPath htext hscope).map fun path _ heq => heq ▸ .same (.named path)
  | _ => exact .pure (.same _)

theorem lockstep_value (htext : k.texts field.typeName) (hscope : k.scopes site.message) :
    k.Lockstep (fun type type' => ∃ kind, field.kind k.left site = .ok kind ∧
      ValueType.Counterpart a b kind.isInt64 type type') (field.value a site)
      (field.value b site) := by
  unfold value
  refine .bind .get fun r s hpaired => ?_
  rw [hpaired.catalog, hpaired.catalog_right]
  refine .bind (.lift (follows_kind htext)) fun kind kind' hkind => ?_
  obtain ⟨hkind, rfl⟩ := hkind
  exact (lockstep_valueOfKind htext hscope kind').imp fun _ _ htype => ⟨kind', hkind, htype⟩

/-- A field that is no map wraps the types of its values alike. -/
theorem counterpart_plainTyping {isInt64 : Bool} {type type' : ValueType}
    (h : ValueType.Counterpart a b isInt64 type type') :
    ValueType.Counterpart a b isInt64 (field.plainTyping type).type
      (field.plainTyping type').type := by
  unfold plainTyping
  split
  · exact .array h
  · split
    · exact h
    · exact h

/-- **Typing a field.** Only what holds 64-bit integers differs, and the entry
type of a map is the same. -/
theorem lockstep_typing (site : FieldSite) (htext : k.texts field.typeName)
    (hscope : k.scopes site.message) :
    k.Lockstep (fun typing typing' =>
      ValueType.Counterpart a b (field.holdsInt64 k.left site) typing.type typing'.type ∧
        typing'.mapEntry = typing.mapEntry) (field.typing a site) (field.typing b site) := by
  unfold Field.typing
  refine .bind .get fun r s hpaired => ?_
  rw [hpaired.catalog, hpaired.catalog_right]
  refine .bind (.lift (follows_mapEntry htext)) fun found found' hfound => ?_
  obtain ⟨hentry, rfl⟩ := hfound
  cases found' with
  | none =>
    have hcarrier : field.carrier? k.left site = some field := by simp [carrier?, hentry]
    refine (lockstep_value htext hscope).map fun type type' htype => ?_
    obtain ⟨kind, hkind, htype⟩ := htype
    have hholds : field.holdsInt64 k.left site = kind.isInt64 := by
      simp [holdsInt64, hcarrier, hkind]
    rw [hholds, (path?_plainTyping field type).2, (path?_plainTyping field type').2]
    exact ⟨counterpart_plainTyping htype, rfl⟩
  | some found =>
    obtain ⟨entry, message⟩ := found
    refine .bind (.lift (.refl _)) fun carrier carrier' hcarrier => ?_
    obtain ⟨hvalueField, rfl⟩ := hcarrier
    have hcarrier : field.carrier? k.left site = some carrier' := by
      simp [carrier?, hentry, hvalueField, Except.toOption]
    -- the value field belongs to a declared message, whose texts are covered
    obtain ⟨hmem, hdefinition⟩ := mapEntry?_eq_ok hentry
    have htext' : k.texts carrier'.typeName :=
      k.fields hmem hdefinition carrier' (mem_of_entryValue hvalueField)
    refine .bind (lockstep_value htext' hscope) fun type type' htype => .pure ?_
    obtain ⟨kind, hkind, htype⟩ := htype
    have hholds : field.holdsInt64 k.left site = kind.isInt64 := by
      simp [holdsInt64, hcarrier, hkind]
    rw [hholds]
    exact ⟨.map htype, rfl⟩

end Field

/-- A file whose texts and scopes the catalogs of a comparison agree on. -/
structure Comparison.Covers (k : Comparison) (file : File) : Prop where
  messages : ∀ {scope m}, (scope, m) ∈ file.withScopes →
    k.scopes scope ∧ ∀ field ∈ m.fields, k.texts field.typeName
  services : ∀ service ∈ file.services, k.scopes (service.scope file.packageName) ∧
    ∀ method ∈ service.methods, k.texts method.input ∧ k.texts method.output

section declarations
variable {file : File}

theorem Field.lockstep_property {field : Field} (htext : k.texts field.typeName) {scope : String}
    (hscope : k.scopes scope) (path : List Int32) (index : Nat) :
    k.Lockstep (fun result result' =>
      Property.Counterpart k.left ⟨scope, file.path⟩ a b field result.1 result'.1 ∧
        result'.2 = result.2)
      (field.property (file.typingContext a) scope path index)
      (field.property (file.typingContext b) scope path index) := by
  unfold Field.property
  refine .bind (lockstep_typing ⟨scope, file.path⟩ htext hscope)
    fun typing typing' htyping => .pure ?_
  exact ⟨⟨a.casing.spells_apply _, b.casing.spells_apply _, htyping.1, rfl⟩, htyping.2⟩

/-! ## Messages -/

namespace Message

theorem lockstep_flaggedTyping {m : Message × Nat} {outer : String} {path : List Int32}
    {step : PathStep}
    (h : k.Lockstep (MessageTyping.Counterpart k.left file a b)
      (m.1.typing (file.typingContext a) outer (step.child path m.2))
      (m.1.typing (file.typingContext b) outer (step.child path m.2))) :
    k.Lockstep (fun result result' =>
      MessageTyping.Counterpart k.left file a b result.1 result'.1 ∧ result'.2 = result.2)
      (flaggedTyping (file.typingContext a) outer path step m)
      (flaggedTyping (file.typingContext b) outer path step m) :=
  h.bind fun _ _ hresult => .pure ⟨hresult, rfl⟩

/-- Of typings with flags that go together, those with one flag go together. -/
theorem forall₂_flagged {results results' : List (MessageTyping × Bool)}
    (h : List.Forall₂ (fun result result' =>
      MessageTyping.Counterpart k.left file a b result.1 result'.1 ∧ result'.2 = result.2)
      results results') (keep : Bool → Bool) :
    List.Forall₂ (MessageTyping.Counterpart k.left file a b)
      ((results.filter (keep ·.2)).map (·.1)) ((results'.filter (keep ·.2)).map (·.1)) := by
  refine List.rel_map (fun _ _ hresult => hresult.1) (List.rel_filter (fun _ _ hresult => ?_) h)
  simp [hresult.2]

/-- **Typing a message**, by induction on the messages inside it. -/
theorem lockstep_typing (hcovers : k.Covers file) (m : Message) :
    ∀ outer path, (∀ site ∈ m.withScopes outer, site ∈ file.withScopes) →
      k.Lockstep (MessageTyping.Counterpart k.left file a b)
        (m.typing (file.typingContext a) outer path)
        (m.typing (file.typingContext b) outer path) := by
  induction m using Message.nested_induction with
  | step m ih =>
    intro outer path hsites
    rw [withScopes_eq, List.forall_mem_cons] at hsites
    obtain ⟨hm, hnested⟩ := hsites
    obtain ⟨hscope, htexts⟩ := hcovers.messages hm
    rw [typing_eq, typing_eq]
    refine .bind (.mapM fun field hfield => Field.lockstep_property
      (htexts field.1 (List.fst_mem_of_mem_zipIdx hfield)) hscope path field.2) ?_
    intro properties properties' hproperties
    refine .bind (.mapM fun n hn => lockstep_flaggedTyping
      (ih n.1 (List.fst_mem_of_mem_zipIdx hn) _ _ fun site hsite =>
        hnested site (List.mem_flatMap.2 ⟨n.1, List.fst_mem_of_mem_zipIdx hn, hsite⟩))) ?_
    intro inner inner' hinner
    have hflagged := hinner.forall₂ fun _ _ _ hresult => hresult
    have hentries : List.Forall₂ (fun result result' => result.2 = result'.2) properties
        properties' := hproperties.forall₂ fun _ _ _ hresult => hresult.2.symm
    have hused : properties.filterMap (·.2) = properties'.filterMap (·.2) :=
      filterMap_eq_filterMap_of_forall₂ hentries fun _ _ heq => heq
    refine .pure ⟨rfl, MessageTyping.forall₂_items hm rfl rfl rfl ?_ rfl
      (forall₂_flagged hflagged not) ?_⟩
    · exact (hproperties.map fun _ _ _ hresult => hresult.1).of_zipIdx
    · simp only [hused]
      exact MessageTyping.forall₂_placeEntries (forall₂_flagged hflagged id) _

end Message

/-! ## Services and files -/

theorem Method.lockstep_operation {method : Method} {service : Service} {package : String}
    (hscope : k.scopes (service.scope package))
    (htexts : k.texts method.input ∧ k.texts method.output) (path : List Int32) (index : Nat) :
    k.Lockstep (Operation.Counterpart a b method)
      (method.operation (file.typingContext a) (Dotted.join package service.name) path index)
      (method.operation (file.typingContext b) (Dotted.join package service.name) path index) := by
  unfold Method.operation Method.callType
  simp only [bind_assoc, pure_bind]
  refine .bind (k.lockstep_path htexts.1 hscope _) fun input _ hinput => ?_
  refine .bind (k.lockstep_path htexts.2 hscope _) fun output _ houtput => .pure ?_
  subst hinput houtput
  exact ⟨a.casing.spells_apply _, b.casing.spells_apply _, rfl, rfl, rfl⟩

theorem Service.lockstep_typing (hcovers : k.Covers file) {service : Service}
    (hservice : service ∈ file.services) (path : List Int32) :
    k.Lockstep (fun typing typing' =>
      Item.Counterpart k.left file a b (.service typing) (.service typing'))
      (service.typing (file.typingContext a) file.packageName path)
      (service.typing (file.typingContext b) file.packageName path) := by
  obtain ⟨hscope, htexts⟩ := hcovers.services service hservice
  unfold Service.typing
  refine .bind (.mapM fun method hmethod => Method.lockstep_operation hscope
    (htexts method.1 (List.fst_mem_of_mem_zipIdx hmethod)) path method.2) ?_
  intro operations operations' hoperations
  exact .pure (.service hservice hoperations.of_zipIdx)

theorem File.lockstep_typing (hcovers : k.Covers file) :
    k.Lockstep (fun typing typing' =>
      List.Forall₂ (Item.Counterpart k.left file a b) typing.items typing'.items)
      (file.typing a) (file.typing b) := by
  unfold File.typing
  simp only [Message.allTypings_eq_mapM]
  refine .bind (.mapM fun m hm => Message.lockstep_flaggedTyping
    (Message.lockstep_typing hcovers m.1 _ _ fun site hsite => ?_)) ?_
  · rw [File.withScopes, Message.allWithScopes_eq_flatMap]
    exact List.mem_flatMap.2 ⟨m.1, List.fst_mem_of_mem_zipIdx hm, hsite⟩
  · intro messages messages' hmessages
    refine .bind (.mapM fun service hservice => Service.lockstep_typing hcovers
      (List.fst_mem_of_mem_zipIdx hservice) _) ?_
    intro services services' hservices
    refine .pure ?_
    unfold FileTyping.items
    rw [MessageTyping.allItems_eq_flatMap, MessageTyping.allItems_eq_flatMap]
    refine List.rel_append (List.rel_append ?_ ?_) ?_
    · exact MessageTyping.forall₂_map_enumeration _
    · exact MessageTyping.forall₂_flatMap_items (List.rel_map (fun _ _ hresult => hresult.1)
        (hmessages.forall₂ fun _ _ _ hresult => hresult))
    · rw [List.forall₂_map_left_iff, List.forall₂_map_right_iff]
      exact hservices.forall₂ fun _ _ _ hservice => hservice

end declarations

/-! ## Declaration files -/

namespace Catalog

variable {catalog : Catalog} {path : String} {file : File} {settings : Settings} {last : Resolver}

theorem typings_of_yields (hfile : catalog.file? path = some file) {typing : FileTyping}
    (h : (file.typing settings).Yields (Resolver.ofFile catalog path) typing last) :
    catalog.typings settings path =
      (Outline.ofTyping file.packageName path typing).map fun outline =>
        { imports := last.imports.list, outline := outline } := by
  unfold ResolveM.Yields at h
  simp only [typings, requireFile, hfile, h, bind, Except.bind]
  cases Outline.ofTyping file.packageName path typing with
  | error fault => rfl
  | ok outline => rfl

theorem typings_of_fails (hfile : catalog.file? path = some file) {fault : Fault}
    (h : (file.typing settings).Fails (Resolver.ofFile catalog path) fault last) :
    catalog.typings settings path = .error fault := by
  unfold ResolveM.Fails at h
  simp only [typings, requireFile, hfile, h, bind, Except.bind]

end Catalog

namespace Comparison

theorem paired_ofFile {file : File} (hleft : k.left.file? k.path = some file)
    (hright : k.right.file? k.path = some file) :
    k.Paired (Resolver.ofFile k.left k.path) (Resolver.ofFile k.right k.path) := by
  refine ⟨rfl, rfl, ?_⟩
  simp [Resolver.ofFile, hleft, hright]

/-- **Two declaration files of one file.** Either both runs succeed, with
counterparts, or the left one ends with a fault, and then so does the right one
if faults count. -/
theorem typings_lockstep {file : File} (hcovers : k.Covers file)
    (hleft : k.left.file? k.path = some file) (hright : k.right.file? k.path = some file)
    (a b : Settings) :
    (∃ t t', k.left.typings a k.path = .ok t ∧ k.right.typings b k.path = .ok t' ∧
      Typings.Counterpart k.left file a b t t') ∨
    ∃ fault, k.left.typings a k.path = .error fault ∧
      (k.faults → k.right.typings b k.path = .error fault) := by
  have hstart := paired_ofFile hleft hright
  have hlockstep := File.lockstep_typing (a := a) (b := b) hcovers
  obtain ⟨typing, last, hyields⟩ | ⟨fault, last, hfails⟩ :=
    ResolveM.yields_or_fails (file.typing a) (Resolver.ofFile k.left k.path)
  · obtain ⟨typing', last', hyields', hitems, hpaired⟩ := hlockstep.yields hstart hyields
    have hclash := Item.firstClash?_eq hitems file.packageName
    rw [Catalog.typings_of_yields hleft hyields, Catalog.typings_of_yields hright hyields']
    unfold Outline.ofTyping
    rw [hclash]
    cases Item.firstClash? file.packageName [] typing.items with
    | some name => exact .inr ⟨_, rfl, fun _ => rfl⟩
    | none =>
      refine .inl ⟨_, _, rfl, rfl, ?_, rfl, hitems⟩
      rw [hpaired.eq]
  · refine .inr ⟨fault, Catalog.typings_of_fails hleft hfails, fun hfaults => ?_⟩
    obtain ⟨last', hfails', -⟩ := hlockstep.fails hfaults hstart hfails
    exact Catalog.typings_of_fails hright hfails'

end Comparison

/-! ## Catalogs with the same types -/

namespace Catalog

/-- Every full name has the same type in both catalogs. -/
def SameTypes (left right : Catalog) : Prop :=
  ∀ name, right.type? name = left.type? name

variable {left right : Catalog} (h : left.SameTypes right)
include h

theorem SameTypes.resolve?_eq (text scope : String) :
    right.resolve? text scope = left.resolve? text scope := by
  cases hrooted : Dotted.isRooted text with
  | true =>
    rw [resolve?, resolve?, if_pos hrooted, if_pos hrooted]
    exact h _
  | false =>
    rw [resolve?_eq_findSome? _ _ hrooted, resolve?_eq_findSome? _ _ hrooted]
    simp only [h _]

theorem SameTypes.enclosingMessages_go_eq (names : List (List Char)) :
    enclosingMessages.go right names = enclosingMessages.go left names := by
  induction names with
  | nil => rfl
  | cons name rest ih =>
    have hget : right.get? (Dotted.ofBackwards name) = left.get? (Dotted.ofBackwards name) := h _
    rw [enclosingMessages.go, enclosingMessages.go, hget, ih]

theorem SameTypes.isShadowed_eq (localName scope : String) :
    right.isShadowed localName scope = left.isShadowed localName scope := by
  have hdeclares : right.declares = left.declares := by
    funext owner name
    exact congrArg Option.isSome (h _)
  rw [isShadowed_eq_any, isShadowed_eq_any, enclosingMessages, enclosingMessages,
    h.enclosingMessages_go_eq, hdeclares]

/-- Catalogs with the same types agree on everything. -/
def SameTypes.comparison (path : String) : Comparison where
  path := path
  left := left
  right := right
  faults := True
  texts _ := True
  scopes _ := True
  found _ hfound := (h.resolve?_eq _ _).trans hfound
  missed _ _ _ _ hmissed := (h.resolve?_eq _ _).trans hmissed
  isShadowed_eq _ _ _ := h.isShadowed_eq _ _
  fields _ _ _ _ := trivial

/-- Over catalogs with the same types and the same file, the runs succeed with
counterparts or end with one fault. -/
theorem SameTypes.typings_lockstep (path : String) (hfile : right.file? path = left.file? path)
    (a b : Settings) :
    (∃ fault, left.typings a path = .error fault ∧ right.typings b path = .error fault) ∨
      ∃ file t t', left.file? path = some file ∧ left.typings a path = .ok t ∧
        right.typings b path = .ok t' ∧ Typings.Counterpart left file a b t t' := by
  cases hleft : left.file? path with
  | none =>
    have hright := hfile.trans hleft
    refine .inl ⟨.unknownFile path, ?_, ?_⟩
    · simp only [typings, requireFile, hleft]
      rfl
    · simp only [typings, requireFile, hright]
      rfl
  | some file =>
    have hcovers : (h.comparison path).Covers file :=
      ⟨fun _ => ⟨trivial, fun _ _ => trivial⟩, fun _ _ => ⟨trivial, fun _ _ => ⟨trivial, trivial⟩⟩⟩
    obtain ⟨t, t', ht, ht', hcounterpart⟩ | ⟨fault, hfault, hfault'⟩ :=
      Comparison.typings_lockstep hcovers hleft (hfile.trans hleft) a b
    · exact .inr ⟨file, t, t', rfl, ht, ht', hcounterpart⟩
    · exact .inl ⟨fault, hfault, hfault' trivial⟩

end Catalog
end ProtoTypings
