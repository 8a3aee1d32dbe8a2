import ProtoTypings.Proofs.EntryPlaces
import ProtoTypings.Proofs.ScopedLookup
/-!
# Values of maps

The values of a map are typed twice: in the property of the map field, where the scope is the
message that has the field, and in the interface of the entry type, where the scope is the entry
type itself. Two lookups then have to meet, and what hides names has to leave the type alone.

**Empty messages.** Where a message declares nothing inside, nobody else declares anything below
its name: what stands above a declared type is a message of the same file or a package, and no
package is called like a message. So a reference means the same in such a message and around it.

**Results.**
* `Catalog.type?_inside_eq_none`: nothing is declared below an empty message.
* `Catalog.resolve?_inside_eq`: a reference in an empty message means what it means around it.
* `File.TypingRun.agree_of_yielded`: a field that was typed in two scopes shows one type, if its
  reference means one type in both.
* `Catalog.map_values_agree`: this holds of the values of maps.
-/
namespace ProtoTypings

/-! ## Positions in lists -/

section lists
variable {α β : Type}

theorem exists_getElem?_of_forall₂ {R : α → β → Prop} {xs : List α} {ys : List β}
    (h : List.Forall₂ R xs ys) {i : Nat} {x : α} (hx : xs[i]? = some x) :
    ∃ y, ys[i]? = some y ∧ R x y := by
  induction h generalizing i with
  | nil => simp at hx
  | cons hxy _ ih =>
    cases i with
    | zero =>
      obtain rfl : _ = x := by simpa using hx
      exact ⟨_, rfl, hxy⟩
    | succ i => exact ih (by simpa using hx)

theorem exists_firstAt_of_find? {p : α → Bool} {xs : List α} {x : α} (h : xs.find? p = some x) :
    ∃ i, xs[i]? = some x ∧ FirstAt (p · = true) xs i := by
  obtain ⟨hp, before, after, rfl, hbefore⟩ := List.find?_eq_some_iff_append.1 h
  have hat : (before ++ x :: after)[before.length]? = some x := by simp
  refine ⟨before.length, hat, ⟨x, hat, hp⟩, fun j hj y hy => ?_⟩
  rw [List.getElem?_append_left hj] at hy
  simpa using hbefore y (List.mem_of_getElem? hy)

end lists

/-! ## Two views of one type -/

/-- A path to a type of the same file: the path inside the package, or that behind the name of
the package. -/
def DeclaredType.IsOwnPath (target : DeclaredType) (shown : String) : Prop :=
  shown = target.localName ∨
    target.package ≠ "" ∧ shown = target.package ++ "." ++ target.localName

/-- Two paths in the declarations of the file `path` that lead to one type. They are the same if
the type is imported, and may differ in the name of the package if it is declared in the file. -/
inductive Typings.SamePaths (path : String) (typings : Typings) (target : DeclaredType) :
    String → String → Prop
  | imported (i : Import) : target.file ≠ path →
      typings.imports.filter (·.name = i.name) = [i] → i.file = target.file → i.used = true →
      SamePaths path typings target (i.name ++ "." ++ target.localName)
        (i.name ++ "." ++ target.localName)
  | own {shown shown' : String} : target.file = path → target.IsOwnPath shown →
      target.IsOwnPath shown' → SamePaths path typings target shown shown'

/-- Two types that show the values of one field, in the scope `outer` and in the scope `inner`:
the same scalar, or paths to the type that the field refers to in both scopes. -/
inductive Typings.SameValues (catalog : Catalog) (path : String) (typings : Typings)
    (outer inner : String) (value : Field) : ValueType → ValueType → Prop
  | scalar {type : ValueType} : type.IsLeaf → type.path? = none →
      SameValues catalog path typings outer inner value type type
  | named {target : DeclaredType} {shown shown' : String} :
      catalog.resolve? value.typeName outer = some target →
      catalog.resolve? value.typeName inner = some target →
      typings.SamePaths path target shown shown' →
      SameValues catalog path typings outer inner value (.named shown) (.named shown')

/-- The properties of an interface that shows a message. -/
def Outline.ShowsProperties (outline : Outline) (entry : DeclaredType)
    (properties : List Property) : Prop :=
  ∃ name leading, (Dotted.segments entry.localName, .interface name leading properties) ∈
    Item.allNodes [] outline.items

/-- What the declarations of the file `path` show of a map at the position `i` of the message
`owner` and of its entry type, which has the value field at the position `j`. -/
structure Typings.ShowsMap (catalog : Catalog) (path : String) (typings : Typings)
    (owner : DeclaredType) (i : Nat) (entry : DeclaredType) (j : Nat) (value : Field) : Prop where
  owner_shown : ∃ ps, typings.outline.ShowsProperties owner ps
  entry_shown : ∃ qs, typings.outline.ShowsProperties entry qs
  same : ∀ ps qs, typings.outline.ShowsProperties owner ps →
    typings.outline.ShowsProperties entry qs →
    ∃ (p q : Property) (values : ValueType), ps[i]? = some p ∧ qs[j]? = some q ∧
      p.type = .map values ∧
      typings.SameValues catalog path owner.fullName entry.fullName value values q.type

/-! ## Nothing below empty messages -/

theorem File.WellNamed.fullName_ne_empty {file : File} (h : file.WellNamed) {entry : DeclaredType}
    (hentry : entry ∈ file.types) : entry.fullName ≠ "" := by
  obtain ⟨scope, name, hname, hfull⟩ := h.exists_scope entry hentry
  rw [hfull]
  exact Dotted.join_ne_empty scope hname.1

theorem File.WellNamed.isSegment_name {file : File} (h : file.WellNamed) {entry : DeclaredType}
    (hentry : entry ∈ file.types) {n : Message} (hn : entry.definition = .message n) :
    Dotted.IsSegment n.name := by
  have hname := h entry hentry
  rw [DeclaredType.simpleName, hn] at hname
  exact hname

/-- What is enclosed in a name stands in front of its last segment. -/
theorem Dotted.encloses_of_isPrefix_join {outer scope name : String} (hname : '.' ∉ name.toList)
    (h : outer.toList ++ ['.'] <+: (join scope name).toList) : Encloses outer scope := by
  obtain ⟨rest, hrest⟩ := h
  rw [List.append_assoc] at hrest
  by_cases hscope : scope = ""
  · rw [hscope, join_empty_left] at hrest
    rw [← hrest] at hname
    simp at hname
  · rw [join_of_ne hscope, String.toList_append, String.toList_append, List.append_assoc] at hrest
    obtain ⟨middle, hscopes, htail⟩ | ⟨middle, houter, htail⟩ := List.append_eq_append_iff.1 hrest
    · -- the scope goes on behind `outer`
      cases middle with
      | nil => exact .inl (String.toList_inj.1 (by simpa using hscopes.symm))
      | cons c cs =>
        obtain ⟨rfl, -⟩ := List.cons.inj htail
        exact .inr ⟨cs, by simp [hscopes]⟩
    · -- the last segment has no dot, so `outer` does not reach into it
      cases middle with
      | nil => exact .inl (String.toList_inj.1 (by simpa using houter))
      | cons c cs =>
        have hname' : name.toList = cs ++ '.' :: rest := (List.cons.inj htail).2
        exact absurd (by simp [hname']) hname

section catalogs
variable {files : List File} {catalog : Catalog} (hfiles : Catalog.ofFiles files = .ok catalog)
  (hnamed : ∀ file ∈ files, file.WellNamed) (hapart : File.MessagesApart files)
include hfiles hnamed hapart

/-- No file declares anything below an empty message. -/
theorem File.Declares.not_below {owner : DeclaredType} (howner : owner ∈ catalog.types)
    {n : Message} (hn : owner.definition = .message n) (hnested : n.nested = [])
    (henums : n.enums = []) {home : File} (hhome : home ∈ files) {path : List String}
    {definition : Definition} (h : home.Declares path definition) :
    ¬ owner.fullName.toList ++ ['.'] <+: (home.fullName path).toList := by
  obtain ⟨file, hfile, hown⟩ := (Catalog.mem_types_iff hfiles).1 howner
  have hwell := hnamed home hhome
  have htop (name : String) (hname : Dotted.IsSegment name) :
      ¬ owner.fullName.toList ++ ['.'] <+: (home.fullName [name]).toList := by
    intro hbelow
    rw [File.fullName_singleton] at hbelow
    exact hapart file hfile owner hown (by simp [DeclaredType.isMessage, DeclaredType.message?, hn])
      home hhome (Dotted.encloses_of_isPrefix_join hname.2 hbelow)
  -- what is right below the owner would be declared inside it
  have hinner {around : List String} {m : Message} (haround : home.Declares around (.message m))
      (hempty : ¬ (m.nested = [] ∧ m.enums = [])) {name : String} (hname : Dotted.IsSegment name)
      (ih : ¬ owner.fullName.toList ++ ['.'] <+: (home.fullName around).toList) :
      ¬ owner.fullName.toList ++ ['.'] <+: (home.fullName (around ++ [name])).toList := by
    intro hbelow
    rw [haround.fullName_concat hwell.named] at hbelow
    obtain heq | hbelow := Dotted.encloses_of_isPrefix_join hname.2 hbelow
    · have hsame : home.entry around (.message m) = owner :=
        List.inj_on_of_nodup_map (Catalog.fullNames_nodup hfiles)
          ((Catalog.mem_types_iff hfiles).2 ⟨home, hhome, haround.mem_types⟩) howner heq.symm
      rw [← hsame] at hn
      cases hn
      exact hempty ⟨hnested, henums⟩
    · exact ih hbelow
  induction h with
  | message hm => exact htop _ (hwell _ (File.Declares.message hm).mem_types)
  | enum he => exact htop _ (hwell _ (File.Declares.enum he).mem_types)
  | nestedMessage haround hm ih =>
    refine hinner haround (fun hempty => ?_) (hwell _ (haround.nestedMessage hm).mem_types) ih
    rw [hempty.1] at hm
    cases hm
  | nestedEnum haround he ih =>
    refine hinner haround (fun hempty => ?_) (hwell _ (haround.nestedEnum he).mem_types) ih
    rw [hempty.2] at he
    cases he

theorem Catalog.type?_inside_eq_none {owner : DeclaredType} (howner : owner ∈ catalog.types)
    {n : Message} (hn : owner.definition = .message n) (hnested : n.nested = [])
    (henums : n.enums = []) (hne : owner.fullName ≠ "") (text : String) :
    catalog.type? (Dotted.join owner.fullName text) = none := by
  cases hfound : catalog.type? (Dotted.join owner.fullName text) with
  | none => rfl
  | some found =>
    obtain ⟨hmem, hfull⟩ := Catalog.mem_of_type? hfound
    obtain ⟨home, hhome, hmem⟩ := (Catalog.mem_types_iff hfiles).1 hmem
    obtain ⟨path, definition, hdeclares, rfl⟩ := File.mem_types_iff_declares.1 hmem
    refine absurd ?_ (hdeclares.not_below hfiles hnamed hapart howner hn hnested henums hhome)
    rw [← File.fullName_entry home path definition, hfull, Dotted.join_of_ne hne]
    exact ⟨text.toList, by simp⟩

/-- A reference in an empty message means what it means around the message. -/
theorem Catalog.resolve?_inside_eq {owner : DeclaredType} (howner : owner ∈ catalog.types)
    {n : Message} (hn : owner.definition = .message n) (hnested : n.nested = [])
    (henums : n.enums = []) {scope : String} (hscope : scope ≠ "")
    (hname : Dotted.IsSegment n.name) (hfull : owner.fullName = Dotted.join scope n.name)
    (text : String) : catalog.resolve? text owner.fullName = catalog.resolve? text scope := by
  cases hrooted : Dotted.isRooted text with
  | true => rw [Catalog.resolve?, Catalog.resolve?, if_pos hrooted, if_pos hrooted]
  | false =>
    have hne : owner.fullName ≠ "" := hfull ▸ Dotted.join_ne_empty scope hname.1
    have hscopes : Dotted.scopes owner.fullName = owner.fullName :: Dotted.scopes scope := by
      have hdot : '.' ∈ owner.fullName.toList := by simp [hfull, Dotted.join_of_ne hscope]
      rw [Dotted.scopes_of_mem hdot, hfull, Dotted.parent_join scope hname.2]
    rw [resolve?_eq_findSome? _ _ hrooted, resolve?_eq_findSome? _ _ hrooted, hscopes,
      List.findSome?_cons, Catalog.type?_inside_eq_none hfiles hnamed hapart howner hn hnested
        henums hne]

end catalogs

/-! ## Values that are typed twice -/

namespace Field

variable {catalog : Catalog} {settings : Settings} {field : Field} {last : Resolver}

/-- The kind of a field depends on what its reference means, not on the scope. -/
theorem HasKind.of_resolve?_eq {scope scope' : String} {kind : FieldType}
    (h : field.HasKind catalog scope kind)
    (heq : catalog.resolve? field.typeName scope' = catalog.resolve? field.typeName scope) :
    field.HasKind catalog scope' kind := by
  cases h with
  | explicit hcode hkind => exact .explicit hcode hkind
  | inferred hcode hname hentry => exact .inferred hcode hname (heq.trans hentry)

theorem HasKind.unique {scope : String} {kind kind' : FieldType}
    (h : field.HasKind catalog scope kind) (h' : field.HasKind catalog scope kind') :
    kind = kind' := by
  have hkind : field.kind catalog ⟨scope, ""⟩ = .ok kind := kind_eq_ok_iff.2 h
  rw [kind_eq_ok_iff.2 h'] at hkind
  exact (Except.ok.inj hkind).symm

/-- Values of a kind that is not named are of one scalar type in all scopes. -/
theorem exists_scalar {kind : FieldType} (hkind : kind.isNamed = false) (settings : Settings)
    (field : Field) :
    ∃ type : ValueType, type.IsLeaf ∧ type.path? = none ∧
      ∀ site, field.valueOfKind settings site kind = pure type := by
  cases kind with
  | enum | message | group => cases hkind
  | int64 | uint64 | sint64 | fixed64 | sfixed64 =>
    refine ⟨if settings.int64AsText then .string else .number, ?_, ?_, fun _ => rfl⟩
    · split <;> trivial
    · split <;> rfl
  | bool => exact ⟨.boolean, trivial, rfl, fun _ => rfl⟩
  | string => exact ⟨.string, trivial, rfl, fun _ => rfl⟩
  | bytes => exact ⟨.bytes, trivial, rfl, fun _ => rfl⟩
  | _ => exact ⟨.number, trivial, rfl, fun _ => rfl⟩

/-- The type of a value, by the kind of the field: the scalar for the kind, or the path that is
remembered for the reference. -/
theorem yielded_value {scope file : String} {type : ValueType}
    (h : ResolveM.Yielded catalog last (field.value settings ⟨scope, file⟩) type) :
    ∃ kind, field.HasKind catalog scope kind ∧
      (kind.isNamed = false →
        ∀ scalar, (∀ site, field.valueOfKind settings site kind = pure scalar) → type = scalar) ∧
      (kind.isNamed = true → ∃ shown, type = .named shown ∧
        last.pathOf? ⟨field.typeName, scope⟩ = some shown) := by
  obtain ⟨before, after, rfl, hyields, hlast⟩ := h
  obtain ⟨kind, hkind, hyields⟩ := yields_value hyields
  refine ⟨kind, kind_eq_ok_iff.1 hkind, fun _ scalar hscalar => ?_, fun hnamed => ?_⟩
  · rw [hscalar] at hyields
    exact (ResolveM.yields_pure_iff.1 hyields).1.symm
  · obtain ⟨context, reference, hresolve, rfl⟩ := yields_valueOfKind_of_named hnamed hyields
    have hresolve' : before.resolve (Mention.mk field.typeName scope).text
      (Mention.mk field.typeName scope).scope context = (.ok reference, after) := hresolve
    refine ⟨reference.path, rfl, ?_⟩
    rw [Resolver.pathOf?, hlast.known _ _ (Resolver.resolve_extends hresolve').2, Option.map_some]

section properties
variable {context : TypingContext} {message : String} {path : List Int32} {index : Nat}
  {result : Property × Option String}
  (h : ResolveM.Yielded catalog last (field.property context message path index) result)
include h

theorem yielded_property_typing :
    ∃ typing, ResolveM.Yielded catalog last (field.typing context.settings ⟨message, context.file⟩)
      typing ∧ result.1.type = typing.type := by
  obtain ⟨before, after, hbefore, hyields, hlast⟩ := h
  rw [property, ResolveM.yields_bind_iff] at hyields
  obtain ⟨typing, next, htyping, hyields⟩ := hyields
  obtain ⟨rfl, rfl⟩ := ResolveM.yields_pure_iff.1 hyields
  exact ⟨typing, ⟨before, next, hbefore, htyping, hlast⟩, rfl⟩

/-- The property of a map holds the values of the first field numbered 2 of its entry type. -/
theorem yielded_property_of_map {entry : DeclaredType} {n : Message}
    (hmap : field.IsMapOf catalog message entry n) :
    ∃ value type, n.fields.find? (·.number = some 2) = some value ∧
      ResolveM.Yielded catalog last (value.value context.settings ⟨message, context.file⟩) type ∧
      result.1.type = .map type := by
  obtain ⟨typing, ⟨before, after, rfl, htyping, hlast⟩, htype⟩ := yielded_property_typing h
  obtain ⟨entry', n', value, type, hmap', hvalue, hyields, rfl⟩ | ⟨hplain, -⟩ :=
    typing_cases htyping
  · obtain ⟨rfl, rfl⟩ := hmap.unique hmap'
    exact ⟨value, type, (entryValue_eq_ok_iff.1 hvalue).1,
      ⟨before, after, rfl, hyields, hlast⟩, htype⟩
  · exact absurd ⟨entry, n, hmap⟩ hplain

/-- The property of a field that is not repeated is of the type of its value. -/
theorem yielded_property_of_single (hlabel : field.label ≠ .repeated) :
    ResolveM.Yielded catalog last (field.value context.settings ⟨message, context.file⟩)
      result.1.type := by
  obtain ⟨typing, ⟨before, after, rfl, htyping, hlast⟩, htype⟩ := yielded_property_typing h
  obtain ⟨_, _, _, _, hmap, -⟩ | ⟨-, type, hyields, rfl⟩ := typing_cases htyping
  · exact absurd hmap.repeated hlabel
  · rw [htype, (plainTyping_of_single hlabel type).1]
    exact ⟨before, after, rfl, hyields, hlast⟩

end properties
end Field

/-- References that are settled for one type lead to it. -/
theorem Resolver.samePaths_of_refer {r : Resolver} (hr : r.imports.WellFormed)
    {target : DeclaredType} {scope scope' : String} {reference reference' : Reference}
    (h : r.refer target scope = (reference, r)) (h' : r.refer target scope' = (reference', r))
    {typings : Typings} (himports : typings.imports = r.imports.list) :
    typings.SamePaths r.file target reference.path reference'.path := by
  have hpath (scope : String) : target.IsOwnPath (r.localPath target scope) := by
    rw [Resolver.localPath]
    split
    · next hshadowed => exact .inr ⟨hshadowed.1, rfl⟩
    · exact .inl rfl
  obtain ⟨hfile, rfl⟩ | ⟨hfile, i, hi, hifile, hused, rfl⟩ := (refer_eq_self_iff hr).1 h
  · obtain ⟨-, rfl⟩ | ⟨hother, -⟩ := (refer_eq_self_iff hr).1 h'
    · exact .own hfile (hpath scope) (hpath scope')
    · exact absurd hfile hother
  · obtain ⟨hown, -⟩ | ⟨-, j, hj, hjfile, -, rfl⟩ := (refer_eq_self_iff hr).1 h'
    · exact absurd hown hfile
    · -- a file is imported once
      obtain rfl : i = j :=
        List.inj_on_of_nodup_map hr.files_nodup hi hj (hifile.trans hjfile.symm)
      exact .imported i hfile (himports ▸ hr.filter_name hi) hifile hused

section runs
variable {files : List File} {catalog : Catalog} (hfiles : Catalog.ofFiles files = .ok catalog)
  {settings : Settings} {file : File} (hfile : file ∈ files) {mid last : Resolver}
  {typing : FileTyping}
  (run : file.TypingRun settings (Resolver.ofFile catalog file.path) mid last typing)
include hfiles hfile run

/-- **A value that is typed in two scopes** shows one type, if its reference means one. -/
theorem File.TypingRun.sameValues_of_yielded (hnul : ∀ file ∈ files, file.NulFree)
    {typings : Typings} (himports : typings.imports = last.imports.list) {value : Field}
    {outer inner : String}
    (hsame : catalog.resolve? value.typeName inner = catalog.resolve? value.typeName outer)
    {a b : ValueType}
    (ha : ResolveM.Yielded catalog mid (value.value settings ⟨outer, file.path⟩) a)
    (hb : ResolveM.Yielded catalog mid (value.value settings ⟨inner, file.path⟩) b) :
    typings.SameValues catalog file.path outer inner value a b := by
  obtain ⟨kind, hkind, hscalar, hnamed⟩ := Field.yielded_value ha
  obtain ⟨kind', hkind', hscalar', hnamed'⟩ := Field.yielded_value hb
  obtain rfl : kind = kind' := (hkind.of_resolve?_eq hsame).unique hkind'
  cases hcase : kind.isNamed with
  | false =>
    obtain ⟨type, hleaf, hpath, htype⟩ := Field.exists_scalar hcase settings value
    rw [hscalar hcase type htype, hscalar' hcase type htype]
    exact .scalar hleaf hpath
  | true =>
    obtain ⟨shown, rfl, hshown⟩ := hnamed hcase
    obtain ⟨shown', rfl, hshown'⟩ := hnamed' hcase
    obtain ⟨target, reference, htarget, hself, rfl⟩ :=
      run.refer_of_messages hfiles hnul hfile hshown
    obtain ⟨target', reference', htarget', hself', rfl⟩ :=
      run.refer_of_messages hfiles hnul hfile hshown'
    rw [Mention.target?] at htarget htarget'
    obtain rfl : target = target' :=
      Option.some.inj (htarget.symm.trans (hsame.symm.trans htarget'))
    have hlast : last.file = file.path := run.run.extends.file
    have hpaths := Resolver.samePaths_of_refer run.sound.imports hself hself' himports
    rw [hlast] at hpaths
    exact .named htarget htarget' hpaths

/-- The interface of a message has one property for each field, at the same position. -/
theorem File.TypingRun.yielded_of_showsProperties (hnamed : file.WellNamed)
    {package : List String} {owner : DeclaredType} (howner : owner ∈ file.types) {m : Message}
    (hm : owner.definition = .message m) {properties : List Property}
    (h : (Outline.mk package typing.items).ShowsProperties owner properties) {i : Nat}
    {field : Field} (hfield : m.fields[i]? = some field) :
    ∃ path result, properties[i]? = some result.1 ∧ ResolveM.Yielded catalog mid
      (field.property (file.typingContext settings) owner.fullName path i) result := by
  have hnodup := Catalog.fullNames_nodup_of_file hfiles hfile
  obtain ⟨name, leading, hnode⟩ := h
  obtain ⟨shown, hshown, hchain, hitem⟩ := run.exists_shown hnamed hnodup hnode rfl
  -- the place of an interface tells its message
  obtain rfl : owner = shown := by
    refine List.inj_on_of_nodup_map hnodup howner hshown ?_
    rw [File.fullName_of_mem_types howner, File.fullName_of_mem_types hshown,
      hnamed.localName_inj howner hshown hchain]
  simp only [hm] at hitem
  obtain ⟨_, path, results, hinterface, hresults⟩ := hitem
  cases hinterface
  have hat : m.fields.zipIdx[i]? = some (field, i) := by simp [List.getElem?_zipIdx, hfield]
  obtain ⟨result, hresult, hyielded⟩ := exists_getElem?_of_forall₂ hresults hat
  exact ⟨path, result, by rw [List.getElem?_map, hresult, Option.map_some], hyielded⟩

theorem File.TypingRun.exists_showsProperties (hnamed : file.WellNamed)
    (package : List String) {owner : DeclaredType} (howner : owner ∈ file.types) {m : Message}
    (hm : owner.definition = .message m) :
    ∃ properties, (Outline.mk package typing.items).ShowsProperties owner properties := by
  obtain ⟨⟨chain, item⟩, hnode, hchain, hitem⟩ := Multiset.exists_mem_of_rel_of_mem
    (run.rel_declarations hnamed (Catalog.fullNames_nodup_of_file hfiles hfile))
    (Multiset.mem_coe.2 howner)
  simp only [hm] at hchain hitem
  obtain ⟨leading, _, results, rfl, -⟩ := hitem
  subst hchain
  exact ⟨_, _, leading, (List.mem_filter.1 (Multiset.mem_coe.1 hnode)).1⟩

end runs

/-- **The values of maps.** Let a catalog be made of files whose packages and types have no NUL in
their names, whose types have names that can be segments, and where no message is called like a
package or the beginning of one. Whenever the declarations of a file are made, consider a map
field of a message whose entry type `n` is declared right inside the message and declares nothing
inside. The entry type has a first field numbered 2. If this field is not repeated, the values in
the property of the map and the property of the entry type for this field show the same: the same
scalar, or paths to the one type that the field refers to. -/
theorem Catalog.map_values_agree {files : List File} {catalog : Catalog} {settings : Settings}
    {path : String} {typings : Typings} (hfiles : Catalog.ofFiles files = .ok catalog)
    (hnamed : ∀ file ∈ files, file.WellNamed) (hnul : ∀ file ∈ files, file.NulFree)
    (hapart : File.MessagesApart files) (h : catalog.typings settings path = .ok typings) :
    ∃ file, catalog.file? path = some file ∧
      ∀ owner ∈ file.types, ∀ m, owner.definition = .message m →
      ∀ (i : Nat) (field : Field), m.fields[i]? = some field →
      ∀ n ∈ m.nested, field.MapsInto catalog owner.fullName n → n.nested = [] → n.enums = [] →
        ∃ entry ∈ file.types, entry.definition = .message n ∧
          entry.fullName = Dotted.join owner.fullName n.name ∧
          ∃ j value, n.fields[j]? = some value ∧ FirstAt (·.number = some 2) n.fields j ∧
            (value.label ≠ .repeated → typings.ShowsMap catalog path owner i entry j value) := by
  obtain ⟨file, typing, mid, last, hfound, run, rfl⟩ := Catalog.typings_eq_ok h
  obtain ⟨hfile, rfl⟩ := Catalog.file?_eq_some hfiles hfound
  refine ⟨file, hfound, fun owner howner m hm i field hfield n hn hmaps hnested henums => ?_⟩
  have hwell := hnamed file hfile
  obtain ⟨entry, hentry, hdefinition, hfull⟩ := hwell.exists_nested howner hm hn
  obtain ⟨target, hmap, -⟩ := hmaps
  -- the message is shown, so the map field was typed
  obtain ⟨ps, hps⟩ := run.exists_showsProperties hfiles hfile hwell
    (Text.splitNonempty '.' file.packageName) howner hm
  obtain ⟨place, result, -, hproperty⟩ :=
    run.yielded_of_showsProperties hfiles hfile hwell howner hm hps hfield
  obtain ⟨value, -, hvalue, -⟩ := Field.yielded_property_of_map hproperty hmap
  obtain ⟨j, hj, hfirst⟩ := exists_firstAt_of_find? hvalue
  refine ⟨entry, hentry, hdefinition, hfull, j, value, hj, by simpa using hfirst,
    fun hlabel => ⟨⟨ps, hps⟩, run.exists_showsProperties hfiles hfile hwell _ hentry hdefinition,
      fun ps qs hps hqs => ?_⟩⟩
  obtain ⟨place, result, hresult, hproperty⟩ :=
    run.yielded_of_showsProperties hfiles hfile hwell howner hm hps hfield
  obtain ⟨value', type, hvalue', htype, hmapType⟩ := Field.yielded_property_of_map hproperty hmap
  obtain rfl : value = value' := Option.some.inj (hvalue.symm.trans hvalue')
  obtain ⟨place', result', hresult', hproperty'⟩ :=
    run.yielded_of_showsProperties hfiles hfile hwell hentry hdefinition hqs hj
  have hsame : catalog.resolve? value.typeName entry.fullName =
      catalog.resolve? value.typeName owner.fullName :=
    Catalog.resolve?_inside_eq hfiles hnamed hapart
      ((Catalog.mem_types_iff hfiles).2 ⟨file, hfile, hentry⟩) hdefinition hnested henums
      (hwell.fullName_ne_empty howner) (hwell.isSegment_name hentry hdefinition) hfull _
  have htype' := Field.yielded_property_of_single hproperty' hlabel
  exact ⟨result.1, result'.1, type, hresult, hresult', hmapType,
    run.sameValues_of_yielded hfiles hfile hnul rfl hsame htype htype'⟩

namespace Sample

def boxesEntry : Message where
  name := "BoxesEntry"
  fields :=
    [{ name := "key", number := some 1, typeCode := some 9 },
     { name := "value", number := some 2, typeName := ".store.Box" }]
  isMapEntry := true

/-- A message with a map to a type of the file, whose name another type hides in the entry type. -/
def shelf : Message where
  name := "Shelf"
  fields := [mapInto "boxes" "BoxesEntry"]
  nested := [boxesEntry, { name := "Box" }]

def store : File where
  name := some "store.proto"
  package := some "store"
  messages := [shelf, { name := "Box" }]

def storeCatalog : Catalog := ⟨[store], store.types⟩

theorem storeOfFiles_eq : Catalog.ofFiles [store] = .ok storeCatalog := rfl

/-- The two paths to the values differ in the name of the package. -/
theorem exists_storeTypings :
    ∃ typings ps qs, storeCatalog.typings {} "store.proto" = .ok typings ∧
      typings.outline.ShowsProperties (store.entry ["Shelf"] (.message shelf)) ps ∧
      typings.outline.ShowsProperties
        (store.entry ["Shelf", "BoxesEntry"] (.message boxesEntry)) qs ∧
      ps.map (·.type) = [.map (.named "Box")] ∧ qs.map (·.type) = [.string, .named "store.Box"] :=
  ⟨_, _, _, rfl, ⟨_, _, .head _⟩, ⟨_, _, .tail _ (.tail _ (.tail _ (.head _)))⟩, rfl, rfl⟩

end Sample

theorem Catalog.map_values_agree_shelf :
    ∃ typings ps qs, Sample.storeCatalog.typings {} "store.proto" = .ok typings ∧
      typings.outline.ShowsProperties (Sample.store.entry ["Shelf"] (.message Sample.shelf)) ps ∧
      typings.outline.ShowsProperties
        (Sample.store.entry ["Shelf", "BoxesEntry"] (.message Sample.boxesEntry)) qs ∧
      ps.map (·.type) = [.map (.named "Box")] ∧ qs.map (·.type) = [.string, .named "store.Box"] ∧
      ∃ entry ∈ Sample.store.types, entry.definition = .message Sample.boxesEntry ∧
        entry.fullName = "store.Shelf.BoxesEntry" ∧
        ∃ value, Sample.boxesEntry.fields[1]? = some value ∧ value.label ≠ .repeated ∧
          typings.ShowsMap Sample.storeCatalog "store.proto"
            (Sample.store.entry ["Shelf"] (.message Sample.shelf)) 0 entry 1 value := by
  obtain ⟨typings, ps, qs, htypings, hps, hqs, hps', hqs'⟩ := Sample.exists_storeTypings
  refine ⟨typings, ps, qs, htypings, hps, hqs, hps', hqs', ?_⟩
  obtain ⟨file, hfile, hmaps⟩ := Catalog.map_values_agree Sample.storeOfFiles_eq (by decide)
    (by decide) (by decide) htypings
  obtain rfl : Sample.store = file := Option.some.inj hfile
  have hmap : (Sample.mapInto "boxes" "BoxesEntry").MapsInto Sample.storeCatalog "store.Shelf"
      Sample.boxesEntry :=
    ⟨Sample.store.entry ["Shelf", "BoxesEntry"] (.message Sample.boxesEntry),
      ⟨rfl, .explicit rfl rfl, rfl, rfl, rfl⟩, rfl⟩
  obtain ⟨entry, hentry, hdefinition, hfull, j, value, hj, hfirst, hshows⟩ :=
    hmaps (Sample.store.entry ["Shelf"] (.message Sample.shelf)) (.head _) Sample.shelf rfl 0 _ rfl
      Sample.boxesEntry (.head _) hmap rfl rfl
  -- the first field numbered 2 is the second one
  obtain rfl : j = 1 := by
    match j, hfirst with
    | 0, hfirst => exact absurd hfirst.1 (by decide)
    | 1, _ => rfl
    | j + 2, _ => exact absurd hj (by simp [Sample.boxesEntry])
  have hlabel : value.label ≠ .repeated := by
    rw [← Option.some.inj hj]
    decide
  exact ⟨entry, hentry, hdefinition, hfull, value, hj, hlabel, hshows hlabel⟩

end ProtoTypings
