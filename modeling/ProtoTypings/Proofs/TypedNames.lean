import ProtoTypings.Proofs.EntryPlaces
/-!
# Full names of typed declarations

Full names are put together twice. A catalog joins the package with the whole path of a
declaration. Typing goes from message to message, joins the full name of each with the name of
what is inside, and looks up the fields of a message in the scope that it arrives at. Since
joining skips an empty scope, the two agree only where every message has a name.

**Typed declarations.** `typing.Declares path typed`: the typed file has a message or an enum under
the names of `path`, those of the typed messages around it and its own. Map entries count among
the messages inside a message.

**Scopes.** `file.sites`: the fields of all messages of a file, each with the full name that the
catalog has for its message. `file.TypedBySites settings`: typing the messages of the file is
nothing but typing these fields in their order, and putting the results together.

**Results.**
* `File.TypingRun.exists_declared`, `File.TypingRun.exists_typed`: what is typed and what is
  declared under a path belong together, and have one full name.
* `Message.assembledFrom_typing`, `File.typedBySites`: which fields typing looks at, and in which
  scopes.
* `Catalog.typed_under_indexed_names`: typing and the catalog agree on full names and scopes.
-/
namespace ProtoTypings

/-! ## Typed declarations -/

inductive TypedDefinition where
  | message (typing : MessageTyping)
  | enum (typing : EnumTyping)

/-- The full name under which a declaration was typed. -/
def TypedDefinition.fullName : TypedDefinition → String
  | message typing => typing.fullName
  | enum typing => typing.fullName

/-- The typed file has `typed` under the names of `path`. -/
inductive FileTyping.Declares (typing : FileTyping) : List String → TypedDefinition → Prop
  | message {t : MessageTyping} : t ∈ typing.messages → Declares typing [t.name] (.message t)
  | enum {e : EnumTyping} : e ∈ typing.enums → Declares typing [e.name] (.enum e)
  | nestedMessage {path : List String} {t n : MessageTyping} : Declares typing path (.message t) →
      n ∈ t.nested ++ t.mapEntries → Declares typing (path ++ [n.name]) (.message n)
  | nestedEnum {path : List String} {t : MessageTyping} {e : EnumTyping} :
      Declares typing path (.message t) → e ∈ t.enums → Declares typing (path ++ [e.name]) (.enum e)

/-- On the way to the resolver `last` the definition was typed under the name `fullName`, with
the result `typed`. -/
inductive Definition.TypedAs (context : TypingContext) (catalog : Catalog) (last : Resolver)
    (fullName : String) : Definition → TypedDefinition → Prop
  | message {m : Message} {outer : String} {path : List Int32} {typing : MessageTyping} :
      Dotted.join outer m.name = fullName →
      ResolveM.Yielded catalog last (m.typing context outer path) typing →
      TypedAs context catalog last fullName (.message m) (.message typing)
  | enum {e : EnumType} {outer : String} {path : List Int32} :
      Dotted.join outer e.name = fullName →
      TypedAs context catalog last fullName (.enum e) (.enum (e.typing context outer path))

namespace Definition.TypedAs

variable {context : TypingContext} {catalog : Catalog} {last : Resolver} {fullName : String}

theorem fullName_eq {definition : Definition} {typed : TypedDefinition}
    (h : definition.TypedAs context catalog last fullName typed) : typed.fullName = fullName := by
  cases h with
  | message hjoin hyielded => exact (Message.yielded_names hyielded).2.trans hjoin
  | enum hjoin => exact hjoin

theorem mono {definition : Definition} {typed : TypedDefinition} {last' : Resolver}
    (h : definition.TypedAs context catalog last fullName typed) (hlast : last.Extends last') :
    definition.TypedAs context catalog last' fullName typed := by
  cases h with
  | message hjoin hyielded => exact .message hjoin (hyielded.extends hlast)
  | enum hjoin => exact .enum hjoin

/-- The enums of a list are typed one by one. -/
theorem forall₂_allTypings (outer : String) (path : List Int32) (step : PathStep)
    (enums : List EnumType) :
    List.Forall₂ (fun e t => t.name = e.name ∧
        Definition.TypedAs context catalog last (Dotted.join outer e.name) (.enum e) (.enum t))
      enums (EnumType.allTypings context outer path step enums) := by
  rw [EnumType.allTypings, ← forall₂_zipIdx_iff, List.forall₂_map_right_iff, List.forall₂_same]
  exact fun e _ => ⟨rfl, .enum rfl⟩

variable {m : Message} {t : MessageTyping}

theorem enums (h : TypedAs context catalog last fullName (.message m) (.message t)) :
    List.Forall₂ (fun e t' => t'.name = e.name ∧
        Definition.TypedAs context catalog last (Dotted.join fullName e.name) (.enum e) (.enum t'))
      m.enums t.enums := by
  cases h with
  | message hjoin hyielded =>
    obtain ⟨properties, inner, -, -, rfl⟩ := Message.yielded_typing hyielded
    rw [hjoin]
    exact forall₂_allTypings fullName _ _ m.enums

/-- The messages inside a message are typed one by one, and none is lost when the map entries
are placed. -/
theorem nested (hnames : (m.nested.map (·.name)).Nodup)
    (h : TypedAs context catalog last fullName (.message m) (.message t)) :
    ∃ inner : List MessageTyping, (t.nested ++ t.mapEntries).Perm inner ∧
      List.Forall₂ (fun n t' => t'.name = n.name ∧
          Definition.TypedAs context catalog last (Dotted.join fullName n.name) (.message n)
            (.message t'))
        m.nested inner := by
  cases h with
  | message hjoin hyielded =>
    obtain ⟨inner, hperm, hinner⟩ := Message.yielded_inner hnames hyielded
    refine ⟨inner, hperm, forall₂_zipIdx_iff.1 (hinner.imp fun n t' hn => ?_)⟩
    rw [hjoin] at hn
    exact ⟨(Message.yielded_names hn).1, .message rfl hn⟩

end Definition.TypedAs

/-! ## What is typed and what is declared -/

/-- Messages inside a declared message differ in their names. -/
theorem File.Declares.nested_names_nodup {file : File} {path : List String} {m : Message}
    (hnodup : (file.types.map (·.fullName)).Nodup) (h : file.Declares path (.message m)) :
    (m.nested.map (·.name)).Nodup := by
  obtain ⟨scope, hscope⟩ := File.exists_types_sublist h.mem_types rfl
  exact (Message.inner_names_nodup ((hscope.map (·.fullName)).nodup hnodup)).of_append_left

namespace File.TypingRun

variable {settings : Settings} {file : File} {r mid last : Resolver} {typing : FileTyping}

theorem typedAs_messages (run : file.TypingRun settings r mid last typing) :
    List.Forall₂ (fun m t => t.name = m.name ∧
        Definition.TypedAs (file.typingContext settings) r.catalog mid (file.fullName [m.name])
          (.message m) (.message t))
      file.messages typing.messages := by
  refine forall₂_zipIdx_iff.1 (run.messages.imp fun m t hm => ?_)
  exact ⟨(Message.yielded_names hm).1, .message (file.fullName_singleton _).symm hm⟩

theorem typedAs_enums (run : file.TypingRun settings r mid last typing) :
    List.Forall₂ (fun e t => t.name = e.name ∧
        Definition.TypedAs (file.typingContext settings) r.catalog mid (file.fullName [e.name])
          (.enum e) (.enum t))
      file.enums typing.enums := by
  rw [run.enums]
  simp only [File.fullName_singleton]
  exact Definition.TypedAs.forall₂_allTypings file.packageName _ _ file.enums

variable (run : file.TypingRun settings r mid last typing) (hnamed : file.Named)
  (hnodup : (file.types.map (·.fullName)).Nodup)
include run hnamed hnodup

/-- What is typed under a path was declared under it, and typed under the full name that goes
with the path. -/
theorem exists_declared {path : List String} {typed : TypedDefinition}
    (h : typing.Declares path typed) :
    ∃ definition, file.Declares path definition ∧
      definition.TypedAs (file.typingContext settings) r.catalog mid (file.fullName path)
        typed := by
  induction h with
  | message ht =>
    obtain ⟨m, hm, hname, htyped⟩ := exists_left_of_forall₂ run.typedAs_messages _ ht
    rw [hname]
    exact ⟨_, .message hm, htyped⟩
  | enum he =>
    obtain ⟨e, he, hname, htyped⟩ := exists_left_of_forall₂ run.typedAs_enums _ he
    rw [hname]
    exact ⟨_, .enum he, htyped⟩
  | nestedMessage _ hn ih =>
    obtain ⟨definition, hdeclares, htyped⟩ := ih
    cases definition with
    | enum e => cases htyped
    | message m =>
      obtain ⟨inner, hperm, hinner⟩ := htyped.nested (hdeclares.nested_names_nodup hnodup)
      obtain ⟨n', hn', hname, htyped'⟩ := exists_left_of_forall₂ hinner _ (hperm.subset hn)
      rw [← hdeclares.fullName_concat hnamed] at htyped'
      rw [hname]
      exact ⟨_, hdeclares.nestedMessage hn', htyped'⟩
  | nestedEnum _ he ih =>
    obtain ⟨definition, hdeclares, htyped⟩ := ih
    cases definition with
    | enum e => cases htyped
    | message m =>
      obtain ⟨e', he', hname, htyped'⟩ := exists_left_of_forall₂ htyped.enums _ he
      rw [← hdeclares.fullName_concat hnamed] at htyped'
      rw [hname]
      exact ⟨_, hdeclares.nestedEnum he', htyped'⟩

/-- What is declared under a path is typed under it. -/
theorem exists_typed {path : List String} {definition : Definition}
    (h : file.Declares path definition) :
    ∃ typed, typing.Declares path typed ∧
      definition.TypedAs (file.typingContext settings) r.catalog mid (file.fullName path)
        typed := by
  induction h with
  | message hm =>
    obtain ⟨t, ht, hname, htyped⟩ := exists_left_of_forall₂ run.typedAs_messages.flip _ hm
    exact ⟨_, hname ▸ .message ht, htyped⟩
  | enum he =>
    obtain ⟨t, ht, hname, htyped⟩ := exists_left_of_forall₂ run.typedAs_enums.flip _ he
    exact ⟨_, hname ▸ .enum ht, htyped⟩
  | nestedMessage hdeclares hn ih =>
    obtain ⟨typed, htyping, htyped⟩ := ih
    cases typed with
    | enum t => cases htyped
    | message t =>
      obtain ⟨inner, hperm, hinner⟩ := htyped.nested (hdeclares.nested_names_nodup hnodup)
      obtain ⟨t', ht', hname, htyped'⟩ := exists_left_of_forall₂ hinner.flip _ hn
      rw [← hdeclares.fullName_concat hnamed] at htyped'
      exact ⟨_, hname ▸ htyping.nestedMessage (hperm.symm.subset ht'), htyped'⟩
  | nestedEnum hdeclares he ih =>
    obtain ⟨typed, htyping, htyped⟩ := ih
    cases typed with
    | enum t => cases htyped
    | message t =>
      obtain ⟨t', ht', hname, htyped'⟩ := exists_left_of_forall₂ htyped.enums.flip _ he
      rw [← hdeclares.fullName_concat hnamed] at htyped'
      exact ⟨_, hname ▸ htyping.nestedEnum ht', htyped'⟩

end File.TypingRun

/-! ## Scopes of fields -/

/-- The fields of a declared message, each with the scope and the file in which the catalog has
it. -/
def DeclaredType.sites (entry : DeclaredType) : List (FieldSite × Field) :=
  match entry.definition with
  | .message m => m.fields.map fun field => (⟨entry.fullName, entry.file⟩, field)
  | .enum _ => []

/-- The fields of all messages of a file, with their scopes. -/
def File.sites (file : File) : List (FieldSite × Field) :=
  file.types.flatMap DeclaredType.sites

/-- Apart from services, typing the file is typing the fields of its messages, each in the scope
that is the full name of its message, and putting the results together. -/
def File.TypedBySites (settings : Settings) (file : File) : Prop :=
  ∃ assemble : List FieldTyping → List MessageTyping, file.typing settings = (do
    let fields ← file.sites.mapM fun site => site.2.typing settings site.1
    let services ← file.services.zipIdx.mapM fun service =>
      service.1.typing (file.typingContext settings) file.packageName
        (PathStep.fileService.child [] service.2)
    pure
      { enums := EnumType.allTypings (file.typingContext settings) file.packageName [] .fileEnum
          file.enums
        messages := assemble fields
        services := services })

/-- What comes after a traversal matters only for as many results as there were elements. -/
theorem mapM_bind_congr {M : Type → Type} [Monad M] [LawfulMonad M] {α β γ : Type} {xs : List α}
    {f : α → M β} {g g' : List β → M γ} (h : ∀ ys, ys.length = xs.length → g ys = g' ys) :
    xs.mapM f >>= g = xs.mapM f >>= g' := by
  induction xs generalizing g g' with
  | nil => simpa using h [] rfl
  | cons x xs ih =>
    simp only [List.mapM_cons, bind_assoc, pure_bind]
    refine bind_congr fun y => ih fun ys hys => h (y :: ys) ?_
    rw [List.length_cons, List.length_cons, hys]

namespace ResolveM

variable {α β γ : Type} {settings : Settings} {sites sites' : List (FieldSite × Field)}

/-- The computation types the fields of `sites`, one after the other, and puts the results
together. -/
def AssembledFrom (settings : Settings) (sites : List (FieldSite × Field)) (x : ResolveM α) :
    Prop :=
  ∃ assemble : List FieldTyping → α,
    x = assemble <$> sites.mapM fun site => site.2.typing settings site.1

theorem assembledFrom_pure (a : α) : AssembledFrom settings [] (pure a) :=
  ⟨fun _ => a, by simp⟩

theorem AssembledFrom.map {x : ResolveM α} (h : AssembledFrom settings sites x) (f : α → β) :
    AssembledFrom settings sites (f <$> x) := by
  obtain ⟨assemble, rfl⟩ := h
  exact ⟨f ∘ assemble, by rw [comp_map]⟩

/-- Two computations of which the second does not depend on the first. -/
theorem AssembledFrom.both {x : ResolveM α} {y : ResolveM β} (hx : AssembledFrom settings sites x)
    (hy : AssembledFrom settings sites' y) (f : α → β → γ) :
    AssembledFrom settings (sites ++ sites') (do
      let a ← x
      let b ← y
      pure (f a b)) := by
  obtain ⟨assemble, rfl⟩ := hx
  obtain ⟨assemble', rfl⟩ := hy
  refine ⟨fun results => f (assemble (results.take sites.length))
    (assemble' (results.drop sites.length)), ?_⟩
  simp only [List.mapM_append, map_eq_pure_bind, bind_assoc, pure_bind]
  -- there are as many first results as first sites, so that the results can be told apart
  refine mapM_bind_congr fun results hresults => bind_congr fun results' => ?_
  rw [List.take_left' hresults, List.drop_left' hresults]

theorem assembledFrom_mapM {f : α → ResolveM β} {g : α → List (FieldSite × Field)} {xs : List α}
    (h : ∀ x ∈ xs, AssembledFrom settings (g x) (f x)) :
    AssembledFrom settings (xs.flatMap g) (xs.mapM f) := by
  induction xs with
  | nil =>
    rw [List.mapM_nil]
    exact assembledFrom_pure []
  | cons x xs ih =>
    obtain ⟨hx, hxs⟩ := List.forall_mem_cons.1 h
    rw [List.mapM_cons, List.flatMap_cons]
    exact hx.both (ih hxs) _

end ResolveM

section scopes
variable {context : TypingContext}

theorem Field.assembledFrom_typing (settings : Settings) (site : FieldSite) (field : Field) :
    ResolveM.AssembledFrom settings [(site, field)] (field.typing settings site) :=
  ⟨fun results => results.headD default, by simp⟩

theorem Field.assembledFrom_property (message : String) (path : List Int32) (field : Field)
    (index : Nat) :
    ResolveM.AssembledFrom context.settings [(⟨message, context.file⟩, field)]
      (field.property context message path index) := by
  unfold Field.property
  simp only [bind_pure_comp]
  exact (field.assembledFrom_typing context.settings ⟨message, context.file⟩).map _

theorem EnumType.flatMap_sites_declared (file package outer : String) (enums : List EnumType) :
    (enums.map (EnumType.declared file package outer)).flatMap DeclaredType.sites = [] := by
  rw [List.flatMap_map, List.flatMap_eq_nil_iff]
  exact fun _ _ => rfl

/-- The sites of the types that a message declares: those of its own fields, then those of the
messages inside it. -/
theorem Message.flatMap_sites_types (file package outer : String) (m : Message) :
    (m.types file package outer).flatMap DeclaredType.sites =
      m.fields.flatMap
          (fun field => [(⟨Dotted.join package (Dotted.join outer m.name), file⟩, field)]) ++
        m.nested.flatMap fun n =>
          (n.types file package (Dotted.join outer m.name)).flatMap DeclaredType.sites := by
  rw [Message.types_eq, List.flatMap_cons, List.flatMap_append, EnumType.flatMap_sites_declared,
    List.append_nil, List.flatMap_assoc, ← List.map_eq_flatMap]
  rfl

/-- **Typing a message** looks at the fields of the types that it declares, in their order and in
the scopes that the catalog has for them. -/
theorem Message.assembledFrom_typing {package : String} (m : Message) :
    ∀ outer path, (∀ entry ∈ m.types context.file package outer, entry.simpleName ≠ "") →
      ResolveM.AssembledFrom context.settings
        ((m.types context.file package outer).flatMap DeclaredType.sites)
        (m.typing context (Dotted.within package outer) path) := by
  induction m using Message.nested_induction with
  | step m ih =>
    intro outer path hnames
    obtain ⟨hname, hnested, -⟩ := Message.forall_types.1 hnames
    -- the scope that typing takes inside is the full name that the catalog gives to the message
    have hinner : Dotted.within package (Dotted.join outer m.name) =
        Dotted.join package (Dotted.join outer m.name) := Dotted.within_join package outer hname
    rw [Message.typing_eq, Message.flatMap_sites_types, Dotted.join_within,
      ← flatMap_zipIdx m.fields, ← flatMap_zipIdx m.nested]
    refine ResolveM.AssembledFrom.both (ResolveM.assembledFrom_mapM fun field _ =>
      field.1.assembledFrom_property _ path field.2) (ResolveM.assembledFrom_mapM fun n hn => ?_) _
    have hmem := List.fst_mem_of_mem_zipIdx hn
    rw [← hinner, Message.flaggedTyping, bind_pure_comp]
    exact (ih n.1 hmem _ _ (hnested n.1 hmem)).map _

/-- **Typing a file** looks at the fields of its types, in their order and in the scopes that the
catalog has for them, and then at its services. -/
theorem File.typedBySites {file : File} (hnamed : file.Named) (settings : Settings) :
    file.TypedBySites settings := by
  obtain ⟨hmessageNames, -⟩ := File.forall_types.1 hnamed
  have hmessages : ResolveM.AssembledFrom settings file.sites
      (Message.allTypings (file.typingContext settings) file.packageName [] .fileMessage 0
        file.messages) := by
    rw [File.sites, File.types_eq, List.flatMap_append, EnumType.flatMap_sites_declared,
      List.append_nil, List.flatMap_assoc, Message.allTypings_eq_mapM, ← flatMap_zipIdx]
    refine ResolveM.assembledFrom_mapM fun m hm => ?_
    have hm : m.1 ∈ file.messages := List.fst_mem_of_mem_zipIdx hm
    rw [Message.flaggedTyping, bind_pure_comp]
    exact (m.1.assembledFrom_typing "" _ (hmessageNames m.1 hm)).map _
  obtain ⟨assemble, hassemble⟩ := hmessages
  refine ⟨fun fields => (assemble fields).map (·.1), ?_⟩
  unfold File.typing
  simp only [File.typingContext] at hassemble
  simp only [hassemble, bind_map_left]
  rfl

end scopes

/-! ## Agreement -/

/-- Typing the file, which led from the resolver `first` to `last` and gave `typing`, and the
catalog agree on full names. -/
structure File.NamedAlike (settings : Settings) (file : File) (catalog : Catalog)
    (first last : Resolver) (typing : FileTyping) : Prop where
  /-- The catalog has every typed declaration under its full name: the descriptor that was typed,
  with the path at which the declaration stands. -/
  indexed : ∀ path typed, typing.Declares path typed →
    ∃ definition, file.Declares path definition ∧
      definition.TypedAs (file.typingContext settings) catalog last typed.fullName typed ∧
      catalog.type? typed.fullName = some (file.entry path definition)
  /-- All that the file declares was typed, under the full name that the catalog has for it. -/
  complete : ∀ path definition, file.Declares path definition →
    ∃ typed, typing.Declares path typed ∧ definition.TypedAs (file.typingContext settings) catalog
      last (file.entry path definition).fullName typed
  known : ∀ entry ∈ file.types, catalog.type? entry.fullName = some entry
  fields : file.TypedBySites settings
  /-- The resolver is asked from the same scopes, and then from those of the services. -/
  mentions : ∃ mid,
    first.Run (file.sites.flatMap fun site => site.2.mentions catalog site.1) mid ∧
    mid.Run (file.services.flatMap (Service.mentions file.packageName)) last

theorem Field.asks_typing {catalog : Catalog} (settings : Settings) (site : FieldSite)
    (field : Field) :
    ResolveM.Asks catalog (field.mentions catalog site) (field.typing settings site) := by
  intro r typing r' hr h
  subst hr
  exact (Field.yields_typing h).1

/-- The mentions of a run that types a file, by the sites of its types. -/
theorem File.exists_run_sites {settings : Settings} {file : File} (hnamed : file.Named)
    {r last : Resolver} {typing : FileTyping} (h : (file.typing settings).Yields r typing last) :
    ∃ mid, r.Run (file.sites.flatMap fun site => site.2.mentions r.catalog site.1) mid ∧
      mid.Run (file.services.flatMap (Service.mentions file.packageName)) last := by
  obtain ⟨assemble, hassemble⟩ := File.typedBySites hnamed settings
  rw [hassemble] at h
  simp only [ResolveM.yields_bind_iff, ResolveM.yields_pure_iff] at h
  obtain ⟨fields, mid, hfields, services, _, hservices, -, rfl⟩ := h
  have hrun := ResolveM.asks_mapM (fun site _ => Field.asks_typing settings site.1 site.2)
    r fields mid rfl hfields
  exact ⟨mid, hrun, File.asks_services settings file mid services _ hrun.extends.catalog hservices⟩

/-- **Typing and the catalog agree on full names.** Let a catalog be made of files, and let one
of them, found by its path, have names for all its types, whatever its package is. If the file
can be typed, every message and enum that comes out at any depth, map entries included, is in the
catalog under its full name: as the descriptor that it was typed from, and with the path at which
it stands. All that the file declares comes out. The fields of a message are typed, and their
types asked for, in the scope that is the full name of this message in the catalog. -/
theorem Catalog.typed_under_indexed_names {files : List File} {catalog : Catalog}
    (hfiles : Catalog.ofFiles files = .ok catalog) {path : String} {file : File}
    (hfile : catalog.file? path = some file) (hnamed : file.Named) {settings : Settings}
    {typing : FileTyping} {last : Resolver}
    (h : (file.typing settings).Yields (Resolver.ofFile catalog path) typing last) :
    file.NamedAlike settings catalog (Resolver.ofFile catalog path) last typing := by
  obtain ⟨hmem, -⟩ := Catalog.file?_eq_some hfiles hfile
  have hnodup := Catalog.fullNames_nodup_of_file hfiles hmem
  have hknown : ∀ entry ∈ file.types, catalog.type? entry.fullName = some entry :=
    fun entry hentry => Catalog.type?_of_mem hfiles
      ((Catalog.mem_types_iff hfiles).2 ⟨file, hmem, hentry⟩)
  obtain ⟨mid, run⟩ := File.yields_typing h
  have hlast : mid.Extends last := run.serviceRun.extends
  refine ⟨fun names typed hdeclares => ?_, fun names definition hdeclares => ?_, hknown,
    File.typedBySites hnamed settings, File.exists_run_sites hnamed h⟩
  · obtain ⟨definition, hdeclared, htyped⟩ := run.exists_declared hnamed hnodup hdeclares
    rw [htyped.fullName_eq]
    exact ⟨definition, hdeclared, htyped.mono hlast, hknown _ hdeclared.mem_types⟩
  · obtain ⟨typed, htyping, htyped⟩ := run.exists_typed hnamed hnodup hdeclares
    exact ⟨typed, htyping, htyped.mono hlast⟩

namespace Sample

def lineItem : Message where
  name := "Line.Item"
  fields := [{ name := "kind", number := some 1, typeName := "Kind" }]

def page : Message where
  name := "Page"
  nested := [lineItem]

def account : Message where
  name := "Account"
  fields := [mapInto "notes" "NotesEntry"]
  nested := [textEntry "NotesEntry", page]
  enums := [{ name := "Kind", values := [{ name := "OPEN" }] }]

/-- A package that begins with a dot, and deep inside it a message whose name holds one. -/
def books : File where
  name := some "books.proto"
  package := some ".books"
  messages := [account]

def booksCatalog : Catalog := ⟨[books], books.types⟩

/-- A message without a name, with a message inside. -/
def unnamed : File where
  name := some "unnamed.proto"
  package := some "p"
  messages := [{ nested := [{ name := "N" }] }]

end Sample

theorem Catalog.typed_under_indexed_names_books :
    Catalog.ofFiles [Sample.books] = .ok Sample.booksCatalog ∧
      Sample.booksCatalog.file? "books.proto" = some Sample.books ∧ Sample.books.Named ∧
      ∃ typing last, (Sample.books.typing {}).Yields
          (Resolver.ofFile Sample.booksCatalog "books.proto") typing last ∧
        Sample.books.NamedAlike {} Sample.booksCatalog
          (Resolver.ofFile Sample.booksCatalog "books.proto") last typing ∧
        ∃ typed, typing.Declares ["Account", "Page", "Line.Item"] typed ∧
          typed.fullName = ".books.Account.Page.Line.Item" := by
  have hfiles : Catalog.ofFiles [Sample.books] = .ok Sample.booksCatalog := rfl
  have hfile : Sample.booksCatalog.file? "books.proto" = some Sample.books := rfl
  have hnamed : Sample.books.Named := by decide
  have hyields : ∃ typing last, (Sample.books.typing {}).Yields
      (Resolver.ofFile Sample.booksCatalog "books.proto") typing last := ⟨_, _, rfl⟩
  obtain ⟨typing, last, hyields⟩ := hyields
  have halike := Catalog.typed_under_indexed_names hfiles hfile hnamed hyields
  have haccount : Sample.books.Declares ["Account"] (.message Sample.account) :=
    .message (m := Sample.account) List.mem_cons_self
  have hpage : Sample.books.Declares ["Account", "Page"] (.message Sample.page) :=
    haccount.nestedMessage (n := Sample.page) (List.mem_cons_of_mem _ List.mem_cons_self)
  have hitem : Sample.books.Declares ["Account", "Page", "Line.Item"]
      (.message Sample.lineItem) :=
    hpage.nestedMessage (n := Sample.lineItem) List.mem_cons_self
  obtain ⟨typed, htyping, htyped⟩ := halike.complete _ _ hitem
  exact ⟨hfiles, hfile, hnamed, typing, last, hyields, halike, typed, htyping, htyped.fullName_eq⟩

/-- Without a name the two ways part: typing looks in a scope that the catalog does not have. -/
example :
    ∃ typing last, (Sample.unnamed.typing {}).Yields
        (Resolver.ofFile ⟨[Sample.unnamed], Sample.unnamed.types⟩ "unnamed.proto") typing last ∧
      typing.messages.flatMap (fun t => t.nested.map (·.fullName)) = ["p..N"] ∧
      Sample.unnamed.types.map (·.fullName) = ["p.", "p.N"] :=
  ⟨_, _, rfl, rfl, rfl⟩

end ProtoTypings
