import ProtoTypings.Proofs.FieldShapes
import ProtoTypings.Proofs.HiddenNames
/-!
# Places of map entries

The entry types of maps are declared among the messages inside a message and are shown
after the others, by the fields that use them. Fields name entry types by references, which
are looked up in the catalog; the typings to be placed are known by full names that were put
together while typing. Both agree, because the catalog has one type for each full name.

**Uses.** `field.MapsInto catalog scope n`: the field is a map, and its entry type is the
message `n` that is declared right inside the message called `scope`.

**Results.**
* `File.WellNamed.exists_nested`: a message inside a declared message is declared under the
  joined name.
* `Field.mapType?_fullName_iff`: the full name that a map field gives away is that of the
  entry type which it uses.
* `Message.entries_arranged`: where the typings of the messages inside a message stand.
-/
namespace ProtoTypings

/-- In the message called `scope` the field is a map, and its entry type is the message
`n` that is declared right inside. -/
def Field.MapsInto (catalog : Catalog) (scope : String) (n : Message) (field : Field) : Prop :=
  ∃ entry, field.IsMapOf catalog scope entry n ∧ entry.fullName = Dotted.join scope n.name

/-- The typings `inner` of the messages inside the message `m` called `scope`, as the typing of
`m` has them. Those of map entries stand apart: first those that a map field of `m` uses, by
the first such field, then the others as they are declared. -/
structure MessageTyping.Arranged (catalog : Catalog) (scope : String) (m : Message)
    (inner : List MessageTyping) (typing : MessageTyping) : Prop where
  nested : typing.nested = ((m.nested.zip inner).filter (!·.1.isMapEntry)).map (·.2)
  mapEntries : ∃ used unused : List (Message × MessageTyping),
    typing.mapEntries = (used ++ unused).map (·.2) ∧
      (used ++ unused).Perm ((m.nested.zip inner).filter (·.1.isMapEntry)) ∧
      (∀ e ∈ used, ∃ i, FirstAt (Field.MapsInto catalog scope e.1) m.fields i) ∧
      used.Pairwise (fun e e' => ∀ i j, FirstAt (Field.MapsInto catalog scope e.1) m.fields i →
        FirstAt (Field.MapsInto catalog scope e'.1) m.fields j → i < j) ∧
      (∀ e ∈ unused, ∀ field ∈ m.fields, ¬ field.MapsInto catalog scope e.1) ∧
      unused.Sublist ((m.nested.zip inner).filter (·.1.isMapEntry))

/-! ## Messages inside declared messages -/

/-- The types of a message inside another stand among the types of that. -/
theorem Message.exists_types_sublist {file package : String} (m : Message) :
    ∀ outer, ∀ entry ∈ m.types file package outer, ∀ k, entry.definition = .message k →
      ∃ scope, (k.types file package scope).Sublist (m.types file package outer) := by
  induction m using Message.nested_induction with
  | step m ih =>
    intro outer entry hentry k hk
    obtain rfl | ⟨n, hn, hentry⟩ | ⟨e, -, rfl⟩ := Message.mem_types.1 hentry
    · cases hk
      exact ⟨outer, List.Sublist.refl _⟩
    · obtain ⟨scope, hscope⟩ := ih n hn _ entry hentry k hk
      refine ⟨scope, hscope.trans ?_⟩
      rw [Message.types_eq file package outer m]
      have hflat : (n.types file package (Dotted.join outer m.name)).Sublist
          (m.nested.flatMap (Message.types file package (Dotted.join outer m.name))) :=
        List.sublist_flatten_of_mem (List.mem_map.2 ⟨n, hn, rfl⟩)
      exact (hflat.trans (List.sublist_append_left _ _)).cons _
    · cases hk

theorem File.exists_types_sublist {file : File} {entry : DeclaredType} (h : entry ∈ file.types)
    {m : Message} (hm : entry.definition = .message m) :
    ∃ scope, (m.types file.path file.packageName scope).Sublist file.types := by
  rw [File.types_eq, List.mem_append, List.mem_flatMap] at h
  obtain ⟨top, htop, h⟩ | h := h
  · obtain ⟨scope, hscope⟩ := top.exists_types_sublist "" entry h m hm
    refine ⟨scope, hscope.trans ?_⟩
    rw [File.types_eq]
    have hflat : (top.types file.path file.packageName "").Sublist
        (file.messages.flatMap (Message.types file.path file.packageName "")) :=
      List.sublist_flatten_of_mem (List.mem_map.2 ⟨top, htop, rfl⟩)
    exact hflat.trans (List.sublist_append_left _ _)
  · obtain ⟨e, -, rfl⟩ := List.mem_map.1 h
    cases hm

/-- A message inside a declared message is declared under the joined name. -/
theorem File.WellNamed.exists_nested {file : File} (h : file.WellNamed) {owner : DeclaredType}
    (howner : owner ∈ file.types) {m n : Message} (hm : owner.definition = .message m)
    (hn : n ∈ m.nested) :
    ∃ entry ∈ file.types, entry.definition = .message n ∧
      entry.fullName = Dotted.join owner.fullName n.name := by
  obtain ⟨path, definition, hdeclares, rfl⟩ := File.mem_types_iff_declares.1 howner
  cases hm
  exact ⟨_, (hdeclares.nestedMessage hn).mem_types, rfl, hdeclares.fullName_concat h.named n.name⟩

/-! ## What a map field gives away -/

section uses
variable {files : List File} {catalog : Catalog} (hfiles : Catalog.ofFiles files = .ok catalog)

theorem Field.mapType?_eq_some_iff {site : FieldSite} {field : Field} {entry : DeclaredType} :
    field.mapType? catalog site = some entry ↔
      ∃ message, field.IsMapOf catalog site.message entry message := by
  simp only [← Field.mapEntry?_eq_some_iff]
  unfold Field.mapType?
  split
  · next found message hfound => simp [hfound, eq_comm]
  · next hother =>
    simp only [reduceCtorEq, false_iff, not_exists]
    exact fun message hfound => hother entry message hfound

include hfiles

/-- The full name that a map field gives away is that of the entry type which it uses. -/
theorem Field.mapType?_fullName_iff {scope file : String} {n : Message} {entry : DeclaredType}
    (hentry : entry ∈ catalog.types) (hn : entry.definition = .message n)
    (hfull : entry.fullName = Dotted.join scope n.name) {field : Field} :
    (field.mapType? catalog ⟨scope, file⟩).map (·.fullName) = some (Dotted.join scope n.name) ↔
      field.MapsInto catalog scope n := by
  rw [Option.map_eq_some_iff]
  constructor
  · rintro ⟨found, hfound, hsame⟩
    obtain ⟨message, hmap⟩ := Field.mapType?_eq_some_iff.1 hfound
    -- the catalog has one type of this full name
    obtain rfl : found = entry := List.inj_on_of_nodup_map (Catalog.fullNames_nodup hfiles)
      (Catalog.mem_of_resolve? hmap.target) hentry (hsame.trans hfull.symm)
    obtain rfl : message = n := by simpa using hmap.definition.symm.trans hn
    exact ⟨found, hmap, hsame⟩
  · rintro ⟨found, hmap, hsame⟩
    exact ⟨found, Field.mapType?_eq_some_iff.2 ⟨n, hmap⟩, hsame⟩

end uses

/-! ## Arranged typings -/

/-- Flagged results are kept as the elements that they belong to are. -/
theorem map_filter_flagged {α β : Type} {flag : α → Bool} {xs : List α} {results : List (β × Bool)}
    (h : List.Forall₂ (fun x result => result.2 = flag x) xs results) (keep : Bool → Bool) :
    (results.filter fun result => keep result.2).map (·.1) =
      ((xs.zip (results.map (·.1))).filter fun pair => keep (flag pair.1)).map (·.2) := by
  induction h with
  | nil => rfl
  | @cons x result xs results hflag _ ih =>
    rw [List.filter_cons, List.map_cons, List.zip_cons_cons, List.filter_cons, hflag]
    split
    · rw [List.map_cons, List.map_cons, ih]
    · exact ih

/-- The typings of messages with different names differ in their full names. -/
theorem MessageTyping.fullNames_nodup {scope : String} {ms : List Message}
    {inner : List MessageTyping} (hnames : (ms.map (·.name)).Nodup)
    (h : List.Forall₂ (fun n t => t.fullName = Dotted.join scope n.name) ms inner) :
    ((ms.zip inner).map (·.2.fullName)).Nodup := by
  have hkeys : (ms.zip inner).map (·.2.fullName) = (ms.map (·.name)).map (Dotted.join scope) := by
    have hsnd : ((ms.zip inner).map (·.2)).map (·.fullName) = inner.map (·.fullName) := by
      rw [List.map_snd_zip h.length_eq.ge]
    rw [List.map_map] at hsnd ⊢
    exact hsnd.trans (map_eq_map_of_forall₂ h fun n t ht => ht.symm).symm
  rw [hkeys]
  exact hnames.map fun _ _ heq => Dotted.join_right_inj.1 heq

/-- **Where map entries stand.** Let a catalog be made of files whose types have names that
can be segments, and let a message of it be typed under its full name, by any resolver of the
catalog. The messages inside it are typed in their order. Those that are no map entries stay
in this order. Those that are map entries stand apart, each of them once: first those that map
fields of the message use, by the first such field, then the others in their order. A field
that uses an entry type of another message moves nothing. -/
theorem Message.entries_arranged {files : List File} {catalog : Catalog}
    (hfiles : Catalog.ofFiles files = .ok catalog) (hnamed : ∀ file ∈ files, file.WellNamed)
    {entry : DeclaredType} (hentry : entry ∈ catalog.types) {m : Message}
    (hm : entry.definition = .message m) {outer : String}
    (houter : Dotted.join outer m.name = entry.fullName) {context : TypingContext}
    {path : List Int32} {r r' : Resolver} (hr : r.catalog = catalog) {typing : MessageTyping}
    (h : (m.typing context outer path).Yields r typing r') :
    ∃ inner : List MessageTyping,
      List.Forall₂ (fun n result => ResolveM.Yielded catalog r'
        (n.1.typing context entry.fullName (PathStep.messageNested.child path n.2)) result)
        m.nested.zipIdx inner ∧
      typing.Arranged catalog entry.fullName m inner := by
  obtain ⟨file, hfile, hown⟩ := (Catalog.mem_types_iff hfiles).1 hentry
  have hyielded : ResolveM.Yielded catalog r' (m.typing context outer path) typing :=
    ⟨r, r', hr, h, .refl r'⟩
  obtain ⟨properties, results, hproperties, hresults, htyping⟩ := Message.yielded_typing hyielded
  rw [houter] at hproperties hresults
  have hflags : List.Forall₂ (fun (n : Message) (result : MessageTyping × Bool) =>
      result.2 = n.isMapEntry) m.nested results :=
    forall₂_zipIdx_iff.1 (hresults.imp fun _ _ hresult => hresult.1)
  have hfull : List.Forall₂ (fun n t => t.fullName = Dotted.join entry.fullName n.name) m.nested
      (results.map (·.1)) :=
    List.forall₂_map_right_iff.2 (forall₂_zipIdx_iff.1
      (hresults.imp fun _ _ hresult => (Message.yielded_names hresult.2).2))
  have hnames : (m.nested.map (·.name)).Nodup := by
    obtain ⟨scope, hscope⟩ := File.exists_types_sublist hown hm
    have hnodup := (hscope.map (·.fullName)).nodup (Catalog.fullNames_nodup_of_file hfiles hfile)
    exact (Message.inner_names_nodup hnodup).of_append_left
  -- a field gives away the full name of an entry type just when it uses this type
  have huses : ∀ e ∈ (m.nested.zip (results.map (·.1))).filter (·.1.isMapEntry),
      ∀ field ∈ m.fields,
        (field.mapType? catalog ⟨entry.fullName, context.file⟩).map (·.fullName) =
          some e.2.fullName ↔ field.MapsInto catalog entry.fullName e.1 := by
    intro e he field _
    have hzip := (List.mem_filter.1 he).1
    obtain ⟨inner, hinner, hdefinition, hjoin⟩ :=
      (hnamed file hfile).exists_nested hown hm (List.of_mem_zip hzip).1
    rw [(List.forall₂_iff_zip.1 hfull).2 hzip]
    exact Field.mapType?_fullName_iff hfiles
      ((Catalog.mem_types_iff hfiles).2 ⟨file, hfile, hinner⟩) hdefinition hjoin
  have hkeys : (((m.nested.zip (results.map (·.1))).filter (·.1.isMapEntry)).map
      (·.2.fullName)).Nodup :=
    (List.filter_sublist.map _).nodup (MessageTyping.fullNames_nodup hnames hfull)
  obtain ⟨used, unused, hplaced, horder⟩ := placeBy_order hkeys huses
  refine ⟨results.map (·.1), List.forall₂_map_right_iff.2 (hresults.imp fun _ _ h => h.2),
    ?_, used, unused, ?_, horder⟩
  · rw [htyping]
    exact map_filter_flagged hflags (! ·)
  · have hmap := map_placeBy (·.fullName) Prod.snd
      (m.usedEntries catalog context.file entry.fullName)
      ((m.nested.zip (results.map (·.1))).filter (·.1.isMapEntry))
    rw [htyping, ← hplaced, Message.filterMap_mapEntry hproperties]
    refine Eq.trans ?_ hmap.symm
    exact congrArg (placeBy (·.fullName) (m.usedEntries catalog context.file entry.fullName))
      (map_filter_flagged hflags id)

namespace Sample

def textEntry (name : String) : Message where
  name := name
  fields :=
    [{ name := "key", number := some 1, typeCode := some 9 },
     { name := "value", number := some 2, typeCode := some 9 }]
  isMapEntry := true

def mapInto (name typeName : String) : Field where
  name := name
  label := .repeated
  typeCode := some 11
  typeName := typeName

/-- A message of three map entries, of which the second is used by two fields and before the
first, and the third by none, and with a field that uses an entry type from elsewhere. -/
def voyage : Message where
  name := "Voyage"
  fields := [mapInto "sums" "SumsEntry", mapInto "notes" ".journal.Diary.NotesEntry",
    mapInto "names" "NamesEntry", mapInto "totals" "Voyage.SumsEntry"]
  nested :=
    [textEntry "NamesEntry", { name := "Page" }, textEntry "SumsEntry", textEntry "OldEntry"]

def journal : File where
  name := some "journal.proto"
  package := some "journal"
  messages := [voyage, { name := "Diary", nested := [textEntry "NotesEntry"] }]

def journalCatalog : Catalog := ⟨[journal], journal.types⟩

theorem journalOfFiles_eq : Catalog.ofFiles [journal] = .ok journalCatalog := rfl

theorem exists_voyageTyping :
    ∃ typing r', (voyage.typing ⟨{}, "journal.proto", []⟩ "journal" [4, 0]).Yields
        (Resolver.ofFile journalCatalog "journal.proto") typing r' ∧
      typing.nested.map (·.name) = ["Page"] ∧
      typing.mapEntries.map (·.name) = ["SumsEntry", "NamesEntry", "OldEntry"] :=
  ⟨_, _, rfl, rfl, rfl⟩

end Sample

theorem Message.entries_arranged_voyage :
    ∃ typing r', (Sample.voyage.typing ⟨{}, "journal.proto", []⟩ "journal" [4, 0]).Yields
        (Resolver.ofFile Sample.journalCatalog "journal.proto") typing r' ∧
      typing.nested.map (·.name) = ["Page"] ∧
      typing.mapEntries.map (·.name) = ["SumsEntry", "NamesEntry", "OldEntry"] ∧
      ∃ inner : List MessageTyping,
        List.Forall₂ (fun n result => ResolveM.Yielded Sample.journalCatalog r'
          (n.1.typing ⟨{}, "journal.proto", []⟩ "journal.Voyage"
            (PathStep.messageNested.child [4, 0] n.2)) result) Sample.voyage.nested.zipIdx inner ∧
        typing.Arranged Sample.journalCatalog "journal.Voyage" Sample.voyage inner := by
  obtain ⟨typing, r', hyields, hnested, hentries⟩ := Sample.exists_voyageTyping
  have hentry : DeclaredType.ofLocal "journal.proto" "journal" "Voyage" (.message Sample.voyage) ∈
      Sample.journalCatalog.types := List.mem_cons_self
  exact ⟨typing, r', hyields, hnested, hentries,
    Message.entries_arranged Sample.journalOfFiles_eq (by decide) hentry rfl rfl rfl hyields⟩

end ProtoTypings
