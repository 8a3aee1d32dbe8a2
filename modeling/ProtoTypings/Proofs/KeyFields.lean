import ProtoTypings.Proofs.Counterparts
import ProtoTypings.Proofs.DirectImports
import ProtoTypings.Proofs.EnclosingSearch
import ProtoTypings.Proofs.FieldShapes
import ProtoTypings.Proofs.OutlineMirror
/-!
# Key fields

The key of a map is always a string, so the key field of an entry type may be anything that
is numbered 1. Here the files of a run are compared with files in which such fields have other
names, types and labels: whatever a resolver answers over one catalog it answers over the
other, and goes on with the same imports and the same memory.

**Rekeyed.** The relation goes along with the descriptors: fields, messages, files, declared
types, catalogs. Full names and files are not touched by it, and neither are messages turned
into enums, map entries into other messages, or value fields into anything else.

**Results.**
* `Catalog.exists_ofFiles_of_rekeyed`: rekeyed files have a catalog if the others have.
* `Catalog.Rekeyed.resolve?`, `Catalog.Rekeyed.isShadowed_eq`: what depends on a catalog.
* `Call.after_withCatalog`: the same history leads to the same resolver but for the catalog.
* `ResolveM.Transfers`: computations that carry over, with a lemma for each way in which
  they are put together.
* `Field.shape_and_key_independence`: the shape of a typed field, and that it stays under
  rekeying.
-/
namespace ProtoTypings

/-! ## Rekeyed descriptors -/

/-- The field itself, or a field numbered 1 with another name, label and type. -/
inductive Field.Rekeyed (field : Field) : Field → Prop
  | same : Rekeyed field field
  | key (name : String) (label : Label) (typeCode : Option Int32) (typeName : String) :
      field.number = some 1 → Rekeyed field { field with name, label, typeCode, typeName }

/-- Messages that differ in fields numbered 1, their own or those of messages inside. -/
inductive Message.Rekeyed : Message → Message → Prop
  | mk {name : String} {fields fields' : List Field} {nested nested' : List Message}
      {enums : List EnumType} {isMapEntry : Bool} :
      List.Forall₂ Field.Rekeyed fields fields' → List.Forall₂ Message.Rekeyed nested nested' →
      Rekeyed (.mk name fields nested enums isMapEntry) (.mk name fields' nested' enums isMapEntry)

structure File.Rekeyed (file file' : File) : Prop where
  messages : List.Forall₂ Message.Rekeyed file.messages file'.messages
  rest : file' = { file with messages := file'.messages }

inductive Definition.Rekeyed : Definition → Definition → Prop
  | message {m m' : Message} : m.Rekeyed m' → Rekeyed (.message m) (.message m')
  | enum (e : EnumType) : Rekeyed (.enum e) (.enum e)

structure DeclaredType.Rekeyed (entry entry' : DeclaredType) : Prop where
  fullName : entry'.fullName = entry.fullName
  file : entry'.file = entry.file
  package : entry'.package = entry.package
  localName : entry'.localName = entry.localName
  definition : entry.definition.Rekeyed entry'.definition

namespace File.Rekeyed

variable {file file' : File} (h : file.Rekeyed file')
include h

theorem path : file'.path = file.path := by rw [h.rest]; rfl

theorem packageName : file'.packageName = file.packageName := by rw [h.rest]; rfl

theorem dependencies : file'.dependencies = file.dependencies := by rw [h.rest]

theorem enums : file'.enums = file.enums := by rw [h.rest]

end File.Rekeyed

theorem EnumType.rekeyed_declared (file package outer : String) (enums : List EnumType) :
    List.Forall₂ DeclaredType.Rekeyed (enums.map (EnumType.declared file package outer))
      (enums.map (EnumType.declared file package outer)) := by
  rw [List.forall₂_same]
  intro entry hentry
  obtain ⟨e, -, rfl⟩ := List.mem_map.1 hentry
  exact ⟨rfl, rfl, rfl, rfl, .enum e⟩

/-- Rekeyed messages declare rekeyed types, in the same order. -/
theorem Message.rekeyed_types {file package : String} (m : Message) :
    ∀ m' outer, m.Rekeyed m' → List.Forall₂ DeclaredType.Rekeyed (m.types file package outer)
      (m'.types file package outer) := by
  induction m using Message.nested_induction with
  | step m ih =>
    intro m' outer h
    have hown := h
    cases h with
    | mk hfields hnested =>
      rw [Message.types_eq, Message.types_eq]
      refine .cons ⟨rfl, rfl, rfl, rfl, .message hown⟩ (List.rel_append ?_ ?_)
      · exact List.rel_flatMap ((List.forall₂_and_left _ _).2 ⟨ih, hnested⟩)
          fun n n' hn => hn.1 n' _ hn.2
      · exact EnumType.rekeyed_declared _ _ _ _

theorem File.Rekeyed.types {file file' : File} (h : file.Rekeyed file') :
    List.Forall₂ DeclaredType.Rekeyed file.types file'.types := by
  rw [File.types_eq, File.types_eq, h.path, h.packageName, h.enums]
  refine List.rel_append ?_ (EnumType.rekeyed_declared _ _ _ _)
  exact List.rel_flatMap h.messages fun m m' hm => m.rekeyed_types m' "" hm

theorem DeclaredType.Rekeyed.isMessage {entry entry' : DeclaredType} (h : entry.Rekeyed entry') :
    entry'.isMessage = entry.isMessage := by
  have hdefinition := h.definition
  unfold DeclaredType.isMessage DeclaredType.message?
  generalize entry.definition = d, entry'.definition = d' at hdefinition
  cases hdefinition with
  | message _ => rfl
  | enum _ => rfl

theorem DeclaredType.Rekeyed.mapEntry? {entry entry' : DeclaredType} (h : entry.Rekeyed entry') :
    Option.Rel Message.Rekeyed entry.mapEntry? entry'.mapEntry? := by
  have hdefinition := h.definition
  unfold DeclaredType.mapEntry? DeclaredType.message?
  generalize entry.definition = d, entry'.definition = d' at hdefinition
  cases hdefinition with
  | enum _ => exact .none
  | message hm =>
    have hown := hm
    cases hm with
    | @mk _ _ _ _ _ _ isMapEntry _ _ =>
      cases isMapEntry with
      | true => exact .some hown
      | false => exact .none

/-! ## Rekeyed catalogs -/

structure Catalog.Rekeyed (catalog catalog' : Catalog) : Prop where
  files : List.Forall₂ File.Rekeyed catalog.files catalog'.files
  types : List.Forall₂ DeclaredType.Rekeyed catalog.types catalog'.types

/-- Rekeying neither takes an import away nor makes two full names one. -/
theorem Catalog.exists_ofFiles_of_rekeyed {files files' : List File} {catalog : Catalog}
    (h : ofFiles files = .ok catalog) (hfiles : List.Forall₂ File.Rekeyed files files') :
    ∃ catalog', ofFiles files' = .ok catalog' ∧ catalog.Rekeyed catalog' := by
  obtain ⟨himports, hnodup, rfl⟩ := ofFiles_eq_ok_iff.1 h
  have htypes : List.Forall₂ DeclaredType.Rekeyed (files.flatMap File.types)
      (files'.flatMap File.types) := List.rel_flatMap hfiles fun _ _ hfile => hfile.types
  have hnames : (files.flatMap File.types).map (·.fullName) =
      (files'.flatMap File.types).map (·.fullName) :=
    map_eq_map_of_forall₂ htypes fun _ _ hentry => hentry.fullName.symm
  have hpaths : files.map File.path = files'.map File.path :=
    map_eq_map_of_forall₂ hfiles fun _ _ hfile => hfile.path.symm
  have hdependencies : files.map File.dependencies = files'.map File.dependencies :=
    map_eq_map_of_forall₂ hfiles fun _ _ hfile => hfile.dependencies.symm
  refine ⟨⟨files', files'.flatMap File.types⟩, ofFiles_eq_ok_iff.2 ⟨?_, hnames ▸ hnodup, rfl⟩,
    hfiles, htypes⟩
  intro file' hfile' d hd
  have hmem : file'.dependencies ∈ files.map File.dependencies :=
    hdependencies ▸ List.mem_map_of_mem hfile'
  obtain ⟨file, hfile, hsame⟩ := List.mem_map.1 hmem
  obtain ⟨home, hhome, rfl⟩ := himports file hfile d (hsame ▸ hd)
  exact List.mem_map.1 (hpaths ▸ List.mem_map_of_mem hhome)

namespace Catalog.Rekeyed

variable {catalog catalog' : Catalog} (h : catalog.Rekeyed catalog')
include h

theorem file? (path : String) :
    Option.Rel File.Rekeyed (catalog.file? path) (catalog'.file? path) :=
  rel_find?_of_forall₂ h.files fun file file' hfile => by rw [hfile.path]

theorem type? (name : String) :
    Option.Rel DeclaredType.Rekeyed (catalog.type? name) (catalog'.type? name) :=
  rel_find?_of_forall₂ h.types fun entry entry' hentry => by rw [hentry.fullName]

theorem resolve? (text scope : String) :
    Option.Rel DeclaredType.Rekeyed (catalog.resolve? text scope)
      (catalog'.resolve? text scope) := by
  cases hrooted : Dotted.isRooted text with
  | true =>
    rw [Catalog.resolve?, Catalog.resolve?, if_pos hrooted, if_pos hrooted]
    exact h.type? _
  | false =>
    rw [resolve?_eq_findSome? _ _ hrooted, resolve?_eq_findSome? _ _ hrooted]
    induction Dotted.scopes scope with
    | nil => exact .none
    | cons s rest ih =>
      have hfound := h.type? (Dotted.join s text)
      rw [List.findSome?_cons, List.findSome?_cons]
      generalize catalog.type? (Dotted.join s text) = found,
        catalog'.type? (Dotted.join s text) = found' at hfound
      cases hfound with
      | none => exact ih
      | some hentry => exact .some hentry

theorem declares_eq {owner owner' : DeclaredType} (howner : owner.Rekeyed owner') (name : String) :
    catalog'.declares owner' name = catalog.declares owner name := by
  have hfound := h.type? (Dotted.unrooted (Dotted.join owner.fullName name))
  unfold Catalog.declares Catalog.get?
  rw [howner.fullName]
  generalize catalog.type? _ = found, catalog'.type? _ = found' at hfound
  cases hfound with
  | none => rfl
  | some _ => rfl

theorem enclosingMessages_go (names : List (List Char)) :
    List.Forall₂ DeclaredType.Rekeyed (enclosingMessages.go catalog names)
      (enclosingMessages.go catalog' names) := by
  induction names with
  | nil => exact .nil
  | cons name rest ih =>
    have hfound := h.type? (Dotted.unrooted (Dotted.ofBackwards name))
    rw [enclosingMessages.go, enclosingMessages.go, Catalog.get?, Catalog.get?]
    generalize catalog.type? _ = found, catalog'.type? _ = found' at hfound
    cases hfound with
    | none => exact .nil
    | some howner =>
      simp only [howner.isMessage]
      split
      · exact .cons howner ih
      · exact .nil

theorem isShadowed_eq (localName scope : String) :
    catalog'.isShadowed localName scope = catalog.isShadowed localName scope := by
  rw [isShadowed_eq_any, isShadowed_eq_any, enclosingMessages, enclosingMessages]
  have howners := h.enclosingMessages_go (Dotted.outerBackwards scope.toList.reverse)
  generalize enclosingMessages.go catalog _ = owners,
    enclosingMessages.go catalog' _ = owners' at howners
  induction howners with
  | nil => rfl
  | cons howner _ ih => rw [List.any_cons, List.any_cons, ih, h.declares_eq howner]

end Catalog.Rekeyed

/-! ## Resolvers over rekeyed catalogs -/

/-- The resolver with another catalog. -/
def Resolver.withCatalog (catalog : Catalog) (r : Resolver) : Resolver :=
  { r with catalog := catalog }

theorem Message.Rekeyed.refl (m : Message) : m.Rekeyed m := by
  induction m using Message.nested_induction with
  | step m ih =>
    obtain ⟨name, fields, nested, enums, isMapEntry⟩ := m
    exact .mk (List.forall₂_same.2 fun _ _ => .same) (List.forall₂_same.2 ih)

theorem DeclaredType.Rekeyed.refl (entry : DeclaredType) : entry.Rekeyed entry := by
  refine ⟨rfl, rfl, rfl, rfl, ?_⟩
  cases entry.definition with
  | message m => exact .message (.refl m)
  | enum e => exact .enum e

namespace Resolver

theorem ofFile_withCatalog {catalog catalog' : Catalog} (h : catalog.Rekeyed catalog')
    (path : String) :
    ofFile catalog' path = (ofFile catalog path).withCatalog catalog' := by
  have hfile := h.file? path
  unfold ofFile withCatalog
  generalize catalog.file? path = found, catalog'.file? path = found' at hfile
  cases hfile with
  | none => rfl
  | some hfile => simp only [reserved, hfile.packageName, hfile.dependencies]

variable {catalog' : Catalog} {r : Resolver} (h : r.catalog.Rekeyed catalog')
include h

theorem refer_withCatalog {entry entry' : DeclaredType} (hentry : entry.Rekeyed entry')
    (scope : String) :
    (r.withCatalog catalog').refer entry' scope =
      ((r.refer entry scope).1, (r.refer entry scope).2.withCatalog catalog') := by
  unfold refer localPath withCatalog
  simp only [hentry.file, hentry.package, hentry.localName, h.isShadowed_eq]
  split <;> rfl

/-- The same answer, remembered or worked out, and the same resolver but for the catalog. -/
theorem resolve_withCatalog (text scope context : String) :
    (r.withCatalog catalog').resolve text scope context =
      ((r.resolve text scope context).1,
        (r.resolve text scope context).2.withCatalog catalog') := by
  have hfound := h.resolve? text scope
  unfold resolve
  rw [show (r.withCatalog catalog').known = r.known from rfl]
  cases r.known.lookup (key text scope) with
  | some reference => rfl
  | none =>
    unfold resolveAnew Catalog.resolve
    rw [show (r.withCatalog catalog').catalog = catalog' from rfl]
    generalize r.catalog.resolve? text scope = found,
      catalog'.resolve? text scope = found' at hfound
    cases hfound with
    | none => rfl
    | some hentry =>
      simp only [refer_withCatalog h hentry]
      rfl

end Resolver

namespace Call

theorem answer_withCatalog {catalog' : Catalog} {r : Resolver} (h : r.catalog.Rekeyed catalog')
    (call : Call) :
    answer (r.withCatalog catalog') call =
      ((answer r call).1, (answer r call).2.withCatalog catalog') := by
  cases call with
  | resolve text scope context => exact Resolver.resolve_withCatalog h text scope context
  | refer entry scope =>
    unfold answer
    simp only [Resolver.refer_withCatalog h (.refl entry)]

/-- The same history leads to the same imports and the same memory. -/
theorem after_withCatalog {catalog' : Catalog} {r : Resolver} (h : r.catalog.Rekeyed catalog')
    (calls : List Call) :
    after (r.withCatalog catalog') calls = (after r calls).withCatalog catalog' := by
  induction calls generalizing r with
  | nil => rfl
  | cons call rest ih =>
    have hcatalog : (answer r call).2.catalog.Rekeyed catalog' :=
      (answer_extends r call).catalog.symm ▸ h
    have hstep : after (r.withCatalog catalog') (call :: rest) =
        after (answer (r.withCatalog catalog') call).2 rest := rfl
    rw [hstep, answer_withCatalog h, ih hcatalog]
    rfl

end Call

/-! ## Computations that carry over -/

/-- Two results with one fault, or with values that are related. -/
inductive ExceptRel {α β : Type} (R : α → β → Prop) : Except Fault α → Except Fault β → Prop
  | error (fault : Fault) : ExceptRel R (.error fault) (.error fault)
  | ok {a : α} {b : β} : R a b → ExceptRel R (.ok a) (.ok b)

theorem ExceptRel.bind {α β γ δ : Type} {R : α → β → Prop} {S : γ → δ → Prop} {x : Except Fault α}
    {y : Except Fault β} {f : α → Except Fault γ} {g : β → Except Fault δ} (h : ExceptRel R x y)
    (hfg : ∀ a b, R a b → ExceptRel S (f a) (g b)) : ExceptRel S (x >>= f) (y >>= g) := by
  cases h with
  | error fault => exact .error fault
  | ok hab => exact hfg _ _ hab

namespace ResolveM

/-- Over the second catalog `y` ends like `x` over the first one, and leaves the same resolver
but for the catalog. -/
def Transfers {α : Type} (catalog catalog' : Catalog) (x y : ResolveM α) : Prop :=
  ∀ r : Resolver, r.catalog = catalog → (x.run.run r).2.catalog = catalog ∧
    y.run.run (r.withCatalog catalog') = ((x.run.run r).1, (x.run.run r).2.withCatalog catalog')

namespace Transfers

variable {α β γ δ : Type} {catalog catalog' : Catalog}

theorem refl_pure (a : α) : Transfers catalog catalog' (pure a) (pure a) :=
  fun _ hr => ⟨hr, rfl⟩

theorem refl_throw (fault : Fault) :
    Transfers catalog catalog' (throw fault : ResolveM α) (throw fault) :=
  fun _ hr => ⟨hr, rfl⟩

theorem bind {x y : ResolveM α} {f g : α → ResolveM β} (hxy : Transfers catalog catalog' x y)
    (hfg : ∀ a, Transfers catalog catalog' (f a) (g a)) :
    Transfers catalog catalog' (x >>= f) (y >>= g) := by
  intro r hr
  obtain ⟨hcatalog, hrun⟩ := hxy r hr
  have hleft : (x >>= f).run.run r =
      (ExceptT.bindCont f (x.run.run r).1).run (x.run.run r).2 := rfl
  have hright : (y >>= g).run.run (r.withCatalog catalog') =
      (ExceptT.bindCont g (y.run.run (r.withCatalog catalog')).1).run
        (y.run.run (r.withCatalog catalog')).2 := rfl
  rw [hleft, hright, hrun]
  rcases hx : x.run.run r with ⟨fault | a, next⟩
  · rw [hx] at hcatalog
    exact ⟨hcatalog, rfl⟩
  · rw [hx] at hcatalog
    exact hfg a next hcatalog

theorem map {x y : ResolveM α} (h : Transfers catalog catalog' x y) (f : α → β) :
    Transfers catalog catalog' (f <$> x) (f <$> y) := by
  rw [map_eq_pure_bind, map_eq_pure_bind]
  exact h.bind fun a => refl_pure (f a)

/-- What is read off the catalog may differ, if what is done with it carries over. -/
theorem read {R : α → γ → Prop} (e : Catalog → Except Fault α) (e' : Catalog → Except Fault γ)
    {f : α → ResolveM β} {g : γ → ResolveM β} (he : ExceptRel R (e catalog) (e' catalog'))
    (hfg : ∀ a b, R a b → Transfers catalog catalog' (f a) (g b)) :
    Transfers catalog catalog' (do f (← e (← get).catalog)) (do g (← e' (← get).catalog)) := by
  intro r hr
  have hleft : (do f (← e (← get).catalog) : ResolveM β).run.run r =
      (ExceptT.bindCont f (e r.catalog)).run r := rfl
  have hright : (do g (← e' (← get).catalog) : ResolveM β).run.run (r.withCatalog catalog') =
      (ExceptT.bindCont g (e' catalog')).run (r.withCatalog catalog') := rfl
  rw [hleft, hright, hr]
  generalize e catalog = x, e' catalog' = y at he
  cases he with
  | error fault => exact ⟨hr, rfl⟩
  | ok hab => exact hfg _ _ hab r hr

theorem path (h : catalog.Rekeyed catalog') (text scope context : String) :
    Transfers catalog catalog' (ResolveM.path text scope context)
      (ResolveM.path text scope context) := by
  refine bind (fun r hr => ⟨?_, Resolver.resolve_withCatalog (hr ▸ h) text scope context⟩)
    fun reference => refl_pure reference.path
  have hext := (Call.answer_extends r (.resolve text scope context)).catalog
  exact hext.trans hr

theorem yields {x y : ResolveM α} (h : Transfers catalog catalog' x y) {r r' : Resolver}
    (hr : r.catalog = catalog) {a : α} (hx : x.Yields r a r') :
    y.Yields (r.withCatalog catalog') a (r'.withCatalog catalog') := by
  obtain ⟨-, hrun⟩ := h r hr
  unfold Yields at hx ⊢
  rw [hrun, hx]

end Transfers
end ResolveM

/-! ## Fields -/

theorem Field.Rekeyed.number {field field' : Field} (h : field.Rekeyed field') :
    field'.number = field.number := by
  cases h with
  | same => rfl
  | key => rfl

/-- A field numbered 2 is no key. -/
theorem Field.Rekeyed.eq_of_value {field field' : Field} (h : field.Rekeyed field')
    (hvalue : field.number = some 2) : field' = field := by
  cases h with
  | same => rfl
  | key name label typeCode typeName hkey =>
    rw [hvalue] at hkey
    simp at hkey

theorem Field.Rekeyed.find?_value {fields fields' : List Field}
    (h : List.Forall₂ Field.Rekeyed fields fields') :
    fields'.find? (·.number = some 2) = fields.find? (·.number = some 2) := by
  induction h with
  | nil => rfl
  | @cons field field' rest rest' hfield _ ih =>
    rw [List.find?_cons, List.find?_cons, hfield.number, ih]
    by_cases hvalue : field.number = some 2
    · simp [hvalue, hfield.eq_of_value hvalue]
    · simp [hvalue]

theorem Field.Rekeyed.any_key {fields fields' : List Field}
    (h : List.Forall₂ Field.Rekeyed fields fields') :
    fields'.any (·.number = some 1) = fields.any (·.number = some 1) := by
  induction h with
  | nil => rfl
  | cons hfield _ ih => rw [List.any_cons, List.any_cons, hfield.number, ih]

namespace Field

variable {catalog catalog' : Catalog} {site : FieldSite} {field : Field}

theorem rekeyed_entryValue {m m' : Message} (h : m.Rekeyed m') :
    field.entryValue site m' = field.entryValue site m := by
  cases h with
  | mk hfields _ =>
    unfold entryValue
    simp only [Rekeyed.find?_value hfields, Rekeyed.any_key hfields]

section
variable (h : catalog.Rekeyed catalog')
include h

theorem rekeyed_target :
    ExceptRel DeclaredType.Rekeyed (field.target catalog site) (field.target catalog' site) := by
  have hfound := h.resolve? field.typeName site.message
  unfold target Catalog.resolve
  generalize catalog.resolve? _ _ = found, catalog'.resolve? _ _ = found' at hfound
  cases hfound with
  | none => exact .error _
  | some hentry => exact .ok hentry

theorem rekeyed_kind : field.kind catalog' site = field.kind catalog site := by
  have htarget : ExceptRel DeclaredType.Rekeyed (field.target catalog site)
      (field.target catalog' site) := rekeyed_target h
  unfold kind
  generalize field.target catalog site = x, field.target catalog' site = y at htarget
  cases htarget with
  | error fault => rfl
  | ok hentry => simp only [Except.map, hentry.isMessage]

theorem rekeyed_mapEntry :
    ExceptRel (Option.Rel fun p p' => p.1.Rekeyed p'.1 ∧ p.2.Rekeyed p'.2)
      (field.mapEntry? catalog site) (field.mapEntry? catalog' site) := by
  unfold mapEntry?
  rw [rekeyed_kind h]
  split
  · cases field.kind catalog site with
    | error fault => exact .error fault
    | ok kind =>
      simp only [bind, Except.bind]
      split
      · refine (rekeyed_target h).bind fun entry entry' hentry => .ok ?_
        have hmessage := hentry.mapEntry?
        generalize entry.mapEntry? = m, entry'.mapEntry? = m' at hmessage
        cases hmessage with
        | none => exact .none
        | some hm => exact .some ⟨hentry, hm⟩
      · exact .ok .none
  · exact .ok .none

theorem transfers_namedPath :
    ResolveM.Transfers catalog catalog' (field.namedPath site) (field.namedPath site) := by
  unfold namedPath
  split
  · exact .refl_throw _
  · exact .path h _ _ _

theorem transfers_value (settings : Settings) :
    ResolveM.Transfers catalog catalog' (field.value settings site)
      (field.value settings site) := by
  have hkind : ExceptRel Eq (field.kind catalog site) (field.kind catalog' site) := by
    rw [rekeyed_kind h]
    cases field.kind catalog site with
    | error fault => exact .error fault
    | ok kind => exact .ok rfl
  refine .read (field.kind · site) (field.kind · site) hkind ?_
  rintro kind _ rfl
  cases kind with
  | enum | message | group => exact (transfers_namedPath h).map _
  | _ => exact .refl_pure _

/-- **Typing a field** carries over to a rekeyed catalog, faults included. -/
theorem transfers_typing (settings : Settings) :
    ResolveM.Transfers catalog catalog' (field.typing settings site)
      (field.typing settings site) := by
  refine .read (field.mapEntry? · site) (field.mapEntry? · site) (rekeyed_mapEntry h)
    fun found found' hfound => ?_
  cases hfound with
  | none => exact (transfers_value h settings).map _
  | @some p p' hp =>
    obtain ⟨entry, message⟩ := p
    obtain ⟨entry', message'⟩ := p'
    have hentry : entry.Rekeyed entry' := hp.1
    have hmessage : message.Rekeyed message' := hp.2
    simp only [rekeyed_entryValue hmessage, hentry.fullName]
    cases field.entryValue site message with
    | error fault => exact .refl_throw fault
    | ok value => exact (transfers_value h settings).bind fun type => .refl_pure _

end

/-- **The shape of a typed field, and the key that does not matter.** Whenever a field is typed,
its typing has the shape that the descriptors tell. Over files that differ in fields numbered 1
the same resolver, which the same history leads to, gives the same typing. -/
theorem shape_and_key_independence {files : List File} {r r' : Resolver}
    (hfiles : Catalog.ofFiles files = .ok r.catalog) {settings : Settings} {site : FieldSite}
    {field : Field} {typing : FieldTyping}
    (h : (field.typing settings site).Yields r typing r') :
    field.Shape settings site r typing r' ∧
      ∀ files', List.Forall₂ File.Rekeyed files files' →
        ∃ catalog', Catalog.ofFiles files' = .ok catalog' ∧
          (field.typing settings site).Yields (r.withCatalog catalog') typing
            (r'.withCatalog catalog') ∧
          ∀ path calls, r = Call.after (.ofFile r.catalog path) calls →
            r.withCatalog catalog' = Call.after (.ofFile catalog' path) calls := by
  refine ⟨shape_of_yields h, fun files' hrekeyed => ?_⟩
  obtain ⟨catalog', hfiles', hcatalog⟩ := Catalog.exists_ofFiles_of_rekeyed hfiles hrekeyed
  refine ⟨catalog', hfiles', (transfers_typing hcatalog settings).yields rfl h, ?_⟩
  intro path calls hr
  have hstart : (Resolver.ofFile r.catalog path).catalog.Rekeyed catalog' := hcatalog
  rw [Resolver.ofFile_withCatalog hcatalog, Call.after_withCatalog hstart, ← hr]

end Field

/-! ## A sample -/

namespace Sample

/-- A map entry with the given key field. The label of its value field is of no account. -/
def accountsEntry (key : Field) : Message where
  name := "AccountsEntry"
  fields :=
    [key, { name := "value", number := some 2, label := .repeated, typeName := "Bank" }]
  isMapEntry := true

def bank (key : Field) : File where
  name := some "bank.proto"
  package := some "bank"
  messages := [{ name := "Bank", nested := [accountsEntry key] }]

def bankCatalog (key : Field) : Catalog := ⟨[bank key], (bank key).types⟩

/-- A map field without a type code. -/
def accounts : Field where
  name := "accounts"
  number := some 1
  label := .repeated
  typeName := "AccountsEntry"

def plainKey : Field := { name := "key", number := some 1, typeCode := some 9 }

/-- A key that could not be typed. -/
def oddKey : Field := { name := "odd", number := some 1, label := .repeated, typeName := "Nowhere" }

theorem bank_rekeyed : List.Forall₂ File.Rekeyed [bank plainKey] [bank oddKey] := by
  have hkey : plainKey.Rekeyed oddKey := .key "odd" .repeated none "Nowhere" rfl
  have hentry : (accountsEntry plainKey).Rekeyed (accountsEntry oddKey) :=
    .mk (.cons hkey (.cons .same .nil)) .nil
  exact .cons ⟨.cons (.mk .nil (.cons hentry .nil)) .nil, rfl⟩ .nil

end Sample

theorem Field.shape_and_key_independence_bank :
    Catalog.ofFiles [Sample.bank Sample.plainKey] = .ok (Sample.bankCatalog Sample.plainKey) ∧
      List.Forall₂ File.Rekeyed [Sample.bank Sample.plainKey] [Sample.bank Sample.oddKey] ∧
      ∃ typing r', typing.type = .map (.named "Bank") ∧
        (Sample.accounts.typing {} ⟨"bank.Bank", "bank.proto"⟩).Yields
          (.ofFile (Sample.bankCatalog Sample.plainKey) "bank.proto") typing r' ∧
        Sample.accounts.Shape {} ⟨"bank.Bank", "bank.proto"⟩
          (.ofFile (Sample.bankCatalog Sample.plainKey) "bank.proto") typing r' ∧
        ∃ catalog', Catalog.ofFiles [Sample.bank Sample.oddKey] = .ok catalog' ∧
          (Sample.accounts.typing {} ⟨"bank.Bank", "bank.proto"⟩).Yields
            (.ofFile catalog' "bank.proto") typing (r'.withCatalog catalog') := by
  have hfiles : Catalog.ofFiles [Sample.bank Sample.plainKey] =
      .ok (Sample.bankCatalog Sample.plainKey) := rfl
  have hyields : (Sample.accounts.typing {} ⟨"bank.Bank", "bank.proto"⟩).Yields
      (.ofFile (Sample.bankCatalog Sample.plainKey) "bank.proto")
      { type := .map (.named "Bank"), multiplicity := .map
        mapEntry := some "bank.Bank.AccountsEntry" }
      _ := rfl
  obtain ⟨hshape, hkeys⟩ := Field.shape_and_key_independence hfiles hyields
  obtain ⟨catalog', hfiles', hyields', hhistory⟩ := hkeys _ Sample.bank_rekeyed
  rw [hhistory "bank.proto" [] rfl] at hyields'
  exact ⟨hfiles, Sample.bank_rekeyed, _, _, rfl, hyields, hshape, catalog', hfiles', hyields'⟩

end ProtoTypings
