import ProtoTypings.Proofs.ReferenceTargets
import ProtoTypings.Proofs.RunOrder
/-!
# Adding files to a run

Files that are added to a run do not change what it makes of the others, as long
as references are written from the root and no message stands in the way of a
package.

Two lookups go to all files of a run. A reference from the root finds what it
found before, since full names are unique. The search for types that hide a name
goes through the messages around the place of the reference, and these are
messages of the file itself: a name right inside one of them can only be declared
by the file that declares the message, because the scope of a declared type is a
message of the same file or a package, and no package is called like a message.

**Results.**
* `File.ClosedIn`: nobody else declares anything inside the messages of a file.
* `File.ClosedIn.isShadowed_eq`: what is hidden in such a file depends on the file
  alone.
* `generate_of_extension`: a run that succeeds makes the same declaration files
  with further files.
* `generate_differs_with_more`: packages that begin with a dot and services with
  dots in their names are exceptions.
-/
namespace ProtoTypings

/-! ## Assumptions -/

/-- `name` is `outer`, or begins with it and a dot. -/
def Dotted.Encloses (outer name : String) : Prop :=
  outer = name ∨ outer.toList ++ ['.'] <+: name.toList

instance (outer name : String) : Decidable (Dotted.Encloses outer name) :=
  inferInstanceAs (Decidable (_ ∨ _))

/-- Every reference of a file is written from the root; fields may have none. -/
def File.Rooted (file : File) : Prop :=
  (∀ entry ∈ file.types, ∀ m ∈ entry.message?, ∀ field ∈ m.fields,
    field.typeName = "" ∨ Dotted.isRooted field.typeName = true) ∧
  ∀ service ∈ file.services, ∀ method ∈ service.methods,
    Dotted.isRooted method.input = true ∧ Dotted.isRooted method.output = true

instance (file : File) : Decidable file.Rooted :=
  inferInstanceAs (Decidable (_ ∧ _))

/-- No message is called like a package or like the beginning of one. -/
def File.MessagesApart (files : List File) : Prop :=
  ∀ file ∈ files, ∀ entry ∈ file.types, entry.isMessage = true →
    ∀ other ∈ files, ¬ Dotted.Encloses entry.fullName other.packageName

instance (files : List File) : Decidable (File.MessagesApart files) :=
  inferInstanceAs (Decidable (∀ file ∈ files, ∀ entry ∈ file.types, _))

/-- The files `more` have all of `files` among them. Both lists are as the
protobuf compiler hands them over. -/
structure File.Extension (files more : List File) : Prop where
  subset : ∀ file ∈ files, file ∈ more
  paths : (files.map File.path).Nodup
  paths_more : (more.map File.path).Nodup
  wellNamed : ∀ file ∈ more, file.WellNamed
  rooted : ∀ file ∈ files, file.Rooted
  apart : File.MessagesApart more
  made : ∃ catalog, Catalog.ofFiles more = .ok catalog

theorem File.extension_append {files extra : List File}
    (hpaths : ((files ++ extra).map File.path).Nodup)
    (hnames : ∀ file ∈ files ++ extra, file.WellNamed) (hrooted : ∀ file ∈ files, file.Rooted)
    (hapart : File.MessagesApart (files ++ extra))
    (hmade : ∃ catalog, Catalog.ofFiles (files ++ extra) = .ok catalog) :
    File.Extension files (files ++ extra) where
  subset _ hfile := List.mem_append_left _ hfile
  paths := by
    rw [List.map_append] at hpaths
    exact hpaths.of_append_left
  paths_more := hpaths
  wellNamed := hnames
  rooted := hrooted
  apart := hapart
  made := hmade

/-- The package does not begin with a dot, and no service has a dot in its name. -/
def File.PlainNames (file : File) : Prop :=
  Dotted.isRooted file.packageName = false ∧ ∀ service ∈ file.services, '.' ∉ service.name.toList

instance (file : File) : Decidable file.PlainNames :=
  inferInstanceAs (Decidable (_ ∧ _))

/-! ## Closed files -/

/-- The catalog has the types of the file, no others right inside the file's
messages, and no message that is called like the file's package or like the
beginning of it. -/
structure File.ClosedIn (file : File) (catalog : Catalog) : Prop where
  own : ∀ entry ∈ file.types, catalog.type? entry.fullName = some entry
  inside : ∀ entry ∈ catalog.types, ∀ owner ∈ file.types, owner.isMessage = true →
    ∀ name, Dotted.IsSegment name → entry.fullName = Dotted.join owner.fullName name →
      entry ∈ file.types
  outside : ∀ entry ∈ catalog.types, entry.isMessage = true →
    ¬ Dotted.Encloses entry.fullName file.packageName
  named : ∀ entry ∈ catalog.types, ∃ scope name, Dotted.IsSegment name ∧
    entry.fullName = Dotted.join scope name

/-- What is declared right inside a message is declared by the message's file. -/
theorem Catalog.mem_of_inside {files : List File} {catalog : Catalog}
    (h : ofFiles files = .ok catalog) (hpaths : (files.map File.path).Nodup)
    (hnames : ∀ file ∈ files, file.WellNamed) (hapart : File.MessagesApart files) {file : File}
    (hfile : file ∈ files) {entry owner : DeclaredType} (hentry : entry ∈ catalog.types)
    (howner : owner ∈ file.types) (hmessage : owner.isMessage = true) {name : String}
    (hname : Dotted.IsSegment name) (hfull : entry.fullName = Dotted.join owner.fullName name) :
    entry ∈ file.types := by
  obtain ⟨home, hhome, hentry⟩ := (mem_types_iff h).1 hentry
  have hsimple := (hnames home hhome entry hentry).2
  -- the scope of the entry, as its own file has it
  have hscope : ∀ entry ∈ home.types,
      entry.fullName = Dotted.join home.packageName entry.simpleName ∨
      ∃ around ∈ home.types, entry.fullName = Dotted.join around.fullName entry.simpleName :=
    (hnames home hhome).owner_induction (fun _ _ htop => .inl htop)
      fun _ _ around haround _ _ hinner => .inr ⟨around, haround, hinner⟩
  obtain htop | ⟨around, haround, hinner⟩ := hscope entry hentry
  · -- a package is not called like a message
    have hpackage := (Dotted.join_inj hname.2 hsimple (hfull.symm.trans htop)).1
    exact absurd (.inl hpackage) (hapart file hfile owner howner hmessage home hhome)
  · have hsame := (Dotted.join_inj hname.2 hsimple (hfull.symm.trans hinner)).1
    have hmem := (mem_types_iff h).2 ⟨file, hfile, howner⟩
    have hmem' := (mem_types_iff h).2 ⟨home, hhome, haround⟩
    have howners : owner = around :=
      List.inj_on_of_nodup_map (fullNames_nodup h) hmem hmem' hsame
    have hhomes : home.path = file.path := by
      rw [← File.file_of_mem_types haround, ← howners, File.file_of_mem_types howner]
    rw [← List.inj_on_of_nodup_map hpaths hhome hfile hhomes]
    exact hentry

theorem File.closedIn_of_ofFiles {files : List File} {catalog : Catalog}
    (h : Catalog.ofFiles files = .ok catalog) (hpaths : (files.map File.path).Nodup)
    (hnames : ∀ file ∈ files, file.WellNamed) (hapart : File.MessagesApart files) {file : File}
    (hfile : file ∈ files) : file.ClosedIn catalog where
  own entry hentry := Catalog.type?_of_mem h ((Catalog.mem_types_iff h).2 ⟨file, hfile, hentry⟩)
  inside entry hentry owner howner hmessage name hname hfull :=
    Catalog.mem_of_inside h hpaths hnames hapart hfile hentry howner hmessage hname hfull
  outside entry hentry hmessage := by
    obtain ⟨home, hhome, hentry⟩ := (Catalog.mem_types_iff h).1 hentry
    exact hapart home hhome entry hentry hmessage file hfile
  named := Catalog.forall_types h fun home hhome => (hnames home hhome).exists_scope

/-! ## What is hidden in a closed file -/

theorem Dotted.isRooted_of_isPrefix {s t : String} (h : s.toList <+: t.toList)
    (ht : isRooted t = false) : isRooted s = false := by
  obtain ⟨rest, hrest⟩ := h
  rw [isRooted, ← hrest] at ht
  rw [isRooted]
  cases hs : s.toList with
  | nil => rfl
  | cons c cs =>
    rw [hs] at ht
    exact ht

theorem File.WellNamed.isRooted_fullName {file : File} (h : file.WellNamed)
    (hplain : Dotted.isRooted file.packageName = false) :
    ∀ entry ∈ file.types, Dotted.isRooted entry.fullName = false := by
  refine h.owner_induction ?_ ?_
  · intro entry hentry hfull
    rw [hfull]
    exact Dotted.isRooted_join hplain (h entry hentry).2
  · intro entry hentry owner _ _ howner hfull
    rw [hfull]
    exact Dotted.isRooted_join howner (h entry hentry).2

/-- The search through enclosing messages stops at a name that is no message. -/
theorem Catalog.enclosingMessages_go_eq_nil {catalog : Catalog} {name : List Char}
    (h : ∀ entry, catalog.get? (Dotted.ofBackwards name) = some entry → entry.isMessage = false)
    (rest : List (List Char)) : enclosingMessages.go catalog (name :: rest) = [] := by
  rw [enclosingMessages.go]
  cases hget : catalog.get? (Dotted.ofBackwards name) with
  | none => rfl
  | some entry => simp [h entry hget]

namespace File.ClosedIn

variable {file : File} {catalog : Catalog} (h : file.ClosedIn catalog)
include h

theorem type?_eq_none : catalog.type? "" = none := by
  cases hfound : catalog.type? "" with
  | none => rfl
  | some entry =>
    obtain ⟨hmem, hempty⟩ := Catalog.mem_of_type? hfound
    obtain ⟨scope, name, hname, hfull⟩ := h.named entry hmem
    exact absurd (hfull.symm.trans hempty) (Dotted.join_ne_empty scope hname.1)

theorem messagesNamed : catalog.MessagesNamed := by
  intro entry hentry _
  obtain ⟨scope, name, hname, hfull⟩ := h.named entry hentry
  rw [hfull]
  exact Dotted.join_ne_empty scope hname.1

/-- A field without a type name names no type. -/
theorem resolve?_empty (scope : String) : catalog.resolve? "" scope = none :=
  Catalog.resolve?_empty h.named scope

theorem isMessage_of_get? (hplain : Dotted.isRooted file.packageName = false) {name : String}
    (hname : name.toList <+: file.packageName.toList)
    (hencloses : Dotted.Encloses name file.packageName) {entry : DeclaredType}
    (hget : catalog.get? name = some entry) : entry.isMessage = false := by
  rw [Catalog.get?, Dotted.unrooted_of_not_isRooted (Dotted.isRooted_of_isPrefix hname hplain)]
    at hget
  obtain ⟨hmem, rfl⟩ := Catalog.mem_of_type? hget
  cases hmessage : entry.isMessage with
  | false => rfl
  | true => exact absurd hencloses (h.outside entry hmem hmessage)

/-- No messages are around a package. -/
theorem enclosingMessages_package (hplain : Dotted.isRooted file.packageName = false) :
    catalog.enclosingMessages file.packageName = [] := by
  have hne : Dotted.outerBackwards file.packageName.toList.reverse ≠ [] := by
    simp [Dotted.outerBackwards]
  obtain ⟨first, rest, houter⟩ := List.exists_cons_of_ne_nil hne
  have hfirst : first ∈ Dotted.outerBackwards file.packageName.toList.reverse := by
    rw [houter]
    exact List.mem_cons_self
  rw [Catalog.enclosingMessages, houter]
  refine Catalog.enclosingMessages_go_eq_nil (fun entry hget => ?_) rest
  obtain rfl | hprefix := Dotted.dot_isPrefix_of_mem_outerBackwards hfirst
  · have hnone : catalog.get? (Dotted.ofBackwards []) = none := h.type?_eq_none
    rw [hnone] at hget
    cases hget
  · have hdot : (Dotted.ofBackwards first).toList ++ ['.'] <+: file.packageName.toList := by
      simpa [Dotted.ofBackwards] using hprefix
    exact h.isMessage_of_get? hplain ((List.prefix_append _ _).trans hdot) (.inr hdot) hget

/-- No messages are around what stands at the top of the file. -/
theorem enclosingMessages_top (hplain : Dotted.isRooted file.packageName = false) {name : String}
    (hname : '.' ∉ name.toList) :
    catalog.enclosingMessages (Dotted.join file.packageName name) = [] := by
  by_cases hpackage : file.packageName = ""
  · rw [hpackage, Dotted.join_empty_left, Catalog.enclosingMessages,
      Dotted.outerBackwards_of_notMem hname]
    refine Catalog.enclosingMessages_go_eq_nil (fun entry hget => ?_) []
    have hnone : catalog.get? (Dotted.ofBackwards []) = none := h.type?_eq_none
    rw [hnone] at hget
    cases hget
  · rw [Catalog.enclosingMessages, Dotted.outerBackwards_join hpackage hname]
    refine Catalog.enclosingMessages_go_eq_nil (fun entry hget => ?_) _
    have hself : Dotted.ofBackwards file.packageName.toList.reverse = file.packageName := by
      simp [Dotted.ofBackwards]
    rw [hself] at hget
    exact h.isMessage_of_get? hplain (List.prefix_refl _) (.inl rfl) hget

/-- Around what stands right inside a message are the message and what is around
it. -/
theorem enclosingMessages_inner {owner : DeclaredType} (howner : owner ∈ file.types)
    (hmessage : owner.isMessage = true) (hplain : Dotted.isRooted owner.fullName = false)
    {name : String} (hname : '.' ∉ name.toList) :
    catalog.enclosingMessages (Dotted.join owner.fullName name) =
      owner :: catalog.enclosingMessages owner.fullName := by
  have hfound : catalog.type? owner.fullName = some owner := h.own owner howner
  have hne : owner.fullName ≠ "" := by
    intro hempty
    rw [hempty, h.type?_eq_none] at hfound
    cases hfound
  have hget : catalog.get? (Dotted.ofBackwards owner.fullName.toList.reverse) = some owner := by
    have hself : Dotted.ofBackwards owner.fullName.toList.reverse = owner.fullName := by
      simp [Dotted.ofBackwards]
    rw [hself, Catalog.get?, Dotted.unrooted_of_not_isRooted hplain, hfound]
  rw [Catalog.enclosingMessages, Dotted.outerBackwards_join hne hname,
    Catalog.enclosingMessages.go, hget]
  exact if_pos hmessage

/-- What a message of the file declares, the file tells. -/
theorem declares_eq {owner : DeclaredType} (howner : owner ∈ file.types)
    (hmessage : owner.isMessage = true) (hplain : Dotted.isRooted owner.fullName = false)
    {name : String} (hname : Dotted.IsSegment name) :
    catalog.declares owner name =
      file.types.any (·.fullName = Dotted.join owner.fullName name) := by
  rw [Catalog.declares, Catalog.get?,
    Dotted.unrooted_of_not_isRooted (Dotted.isRooted_join hplain hname.2)]
  cases hfound : catalog.type? (Dotted.join owner.fullName name) with
  | some entry =>
    obtain ⟨hmem, hfull⟩ := Catalog.mem_of_type? hfound
    have hentry := h.inside entry hmem owner howner hmessage name hname hfull
    have hany : file.types.any (·.fullName = Dotted.join owner.fullName name) = true :=
      List.any_eq_true.2 ⟨entry, hentry, by simpa using hfull⟩
    rw [hany]
    rfl
  | none =>
    have hany : file.types.any (·.fullName = Dotted.join owner.fullName name) = false := by
      rw [List.any_eq_false]
      intro entry hentry hfull
      rw [decide_eq_true_eq] at hfull
      rw [← hfull, h.own entry hentry] at hfound
      cases hfound
    rw [hany]
    rfl

end File.ClosedIn

/-- The messages around a declared type are messages of its file, and the same in
every catalog in which the file is closed. -/
theorem File.exists_enclosing {file : File} (hnames : file.WellNamed)
    (hplain : Dotted.isRooted file.packageName = false) :
    ∀ entry ∈ file.types, ∃ owners : List DeclaredType,
      (∀ owner ∈ owners, owner ∈ file.types ∧ owner.isMessage = true) ∧
        ∀ catalog, file.ClosedIn catalog →
          catalog.enclosingMessages entry.fullName = owners := by
  refine hnames.owner_induction ?_ ?_
  · intro entry hentry hfull
    refine ⟨[], List.forall_mem_nil _, fun catalog hclosed => ?_⟩
    rw [hfull]
    exact hclosed.enclosingMessages_top hplain (hnames entry hentry).2
  · rintro entry hentry owner howner hmessage ⟨owners, howners, hsame⟩ hfull
    refine ⟨owner :: owners, List.forall_mem_cons.2 ⟨⟨howner, hmessage⟩, howners⟩,
      fun catalog hclosed => ?_⟩
    have hrooted := hnames.isRooted_fullName hplain owner howner
    rw [hfull, hclosed.enclosingMessages_inner howner hmessage hrooted (hnames entry hentry).2,
      hsame catalog hclosed]

/-- The scopes of the references of a file. -/
def File.IsScope (file : File) (scope : String) : Prop :=
  (∃ entry ∈ file.types, entry.fullName = scope) ∨
    ∃ service ∈ file.services, service.scope file.packageName = scope

theorem File.WellNamed.isSegment_head {file : File} (h : file.WellNamed) :
    ∀ entry ∈ file.types, Dotted.IsSegment (Dotted.head entry.localName) := by
  intro entry hentry
  -- the first segment of a path stays when further names are joined
  have step : ∀ scope name, (scope = "" ∨ Dotted.IsSegment (Dotted.head scope)) →
      Dotted.IsSegment name → Dotted.IsSegment (Dotted.head (Dotted.join scope name)) := by
    intro scope name hscope hname
    by_cases hs : scope = ""
    · rw [hs, Dotted.join_empty_left, Dotted.head_of_isSegment hname]
      exact hname
    · rw [Dotted.head_join hs]
      exact hscope.resolve_left hs
  obtain ⟨scope, hscope, hlocal⟩ :=
    file.exists_outer (motive := fun scope => scope = "" ∨ Dotted.IsSegment (Dotted.head scope))
      (fun scope name hscope hname => .inr (step scope name hscope hname)) (.inl rfl) h entry hentry
  rw [hlocal]
  exact step scope _ hscope (h entry hentry)

/-- **What is hidden in a closed file** depends on the file alone. -/
theorem File.ClosedIn.isShadowed_eq {file : File} {left right : Catalog}
    (hleft : file.ClosedIn left) (hright : file.ClosedIn right) (hnames : file.WellNamed)
    (hplain : file.PlainNames) {scope : String} (hscope : file.IsScope scope)
    {entry : DeclaredType} (hentry : entry ∈ file.types) :
    right.isShadowed entry.localName scope = left.isShadowed entry.localName scope := by
  have hhead := hnames.isSegment_head entry hentry
  obtain ⟨home, hhome, rfl⟩ | ⟨service, hservice, rfl⟩ := hscope
  · obtain ⟨owners, howners, hsame⟩ := file.exists_enclosing hnames hplain.1 home hhome
    have hdeclares : ∀ owner ∈ owners, right.declares owner (Dotted.head entry.localName) =
        left.declares owner (Dotted.head entry.localName) := by
      intro owner howner
      obtain ⟨hmem, hmessage⟩ := howners owner howner
      have hrooted := hnames.isRooted_fullName hplain.1 owner hmem
      rw [hright.declares_eq hmem hmessage hrooted hhead,
        hleft.declares_eq hmem hmessage hrooted hhead]
    rw [Catalog.isShadowed_eq_any, Catalog.isShadowed_eq_any, hsame left hleft, hsame right hright,
      Bool.eq_iff_iff, List.any_eq_true, List.any_eq_true]
    exact exists_congr fun owner => and_congr_right fun howner => by rw [hdeclares owner howner]
  · have hpackage : service.scope file.packageName = file.packageName :=
      Dotted.parent_join _ (hplain.2 service hservice)
    rw [hpackage, Catalog.isShadowed_eq_any, Catalog.isShadowed_eq_any,
      hleft.enclosingMessages_package hplain.1, hright.enclosingMessages_package hplain.1]
    rfl

/-! ## Runs with further files -/

/-- The scope of a message's fields is the full name of a declared message. -/
theorem Message.exists_entry_of_withScopes {file package : String} (m : Message) :
    ∀ outer, (∀ entry ∈ m.types file package outer, Dotted.IsSegment entry.simpleName) →
      ∀ site ∈ m.withScopes (Dotted.within package outer),
        ∃ entry ∈ m.types file package outer,
          entry.fullName = site.1 ∧ entry.definition = .message site.2 := by
  induction m using Message.nested_induction with
  | step m ih =>
    intro outer hnames site hsite
    obtain ⟨hname, hnested, -⟩ := Message.forall_types.1 hnames
    have hne : m.name ≠ "" := hname.1
    have hscope : Dotted.join (Dotted.within package outer) m.name =
        Dotted.within package (Dotted.join outer m.name) := by
      rw [Dotted.join_within, Dotted.within_join package outer hne]
    rw [Message.withScopes_eq, List.mem_cons, List.mem_flatMap] at hsite
    obtain rfl | ⟨n, hn, hsite⟩ := hsite
    · exact ⟨_, Message.mem_types.2 (.inl rfl), (Dotted.join_within package outer m.name).symm, rfl⟩
    · rw [hscope] at hsite
      obtain ⟨entry, hentry, hmatch⟩ := ih n hn _ (hnested n hn) site hsite
      exact ⟨entry, Message.mem_types.2 (.inr (.inl ⟨n, hn, hentry⟩)), hmatch⟩

theorem File.WellNamed.exists_entry_of_withScopes {file : File} (h : file.WellNamed)
    {site : String × Message} (hsite : site ∈ file.withScopes) :
    ∃ entry ∈ file.types, entry.fullName = site.1 ∧ entry.definition = .message site.2 := by
  rw [File.withScopes, Message.allWithScopes_eq_flatMap, List.mem_flatMap] at hsite
  obtain ⟨m, hm, hsite⟩ := hsite
  obtain ⟨entry, hentry, hmatch⟩ := m.exists_entry_of_withScopes "" ((File.forall_types.1 h).1 m hm)
    site hsite
  refine ⟨entry, ?_, hmatch⟩
  rw [File.types_eq, List.mem_append, List.mem_flatMap]
  exact .inl ⟨m, hm, hentry⟩

theorem File.Rooted.fields {file : File} (h : file.Rooted) {entry : DeclaredType}
    (hentry : entry ∈ file.types) {m : Message} (hm : entry.definition = .message m) :
    ∀ field ∈ m.fields, field.typeName = "" ∨ Dotted.isRooted field.typeName = true := by
  have hmessage : entry.message? = some m := by rw [DeclaredType.message?, hm]
  exact h.1 entry hentry m hmessage

namespace File.Extension

variable {files more : List File} {left right : Catalog} {file : File}
  (h : File.Extension files more)
include h

theorem closedIn_left (hleft : Catalog.ofFiles files = .ok left) (hfile : file ∈ files) :
    file.ClosedIn left :=
  File.closedIn_of_ofFiles hleft h.paths (fun file hfile => h.wellNamed file (h.subset file hfile))
    (fun file hfile entry hentry hmessage other hother => h.apart file (h.subset file hfile) entry
      hentry hmessage other (h.subset other hother)) hfile

theorem closedIn_right (hright : Catalog.ofFiles more = .ok right) (hfile : file ∈ files) :
    file.ClosedIn right :=
  File.closedIn_of_ofFiles hright h.paths_more h.wellNamed h.apart (h.subset file hfile)

variable (hleft : Catalog.ofFiles files = .ok left) (hright : Catalog.ofFiles more = .ok right)
include hleft hright

theorem mem_right {entry : DeclaredType} (hentry : entry ∈ left.types) : entry ∈ right.types := by
  obtain ⟨home, hhome, hentry⟩ := (Catalog.mem_types_iff hleft).1 hentry
  exact (Catalog.mem_types_iff hright).2 ⟨home, h.subset home hhome, hentry⟩

/-- A reference from the root means the same with further files. -/
theorem resolve?_of_isRooted {text scope : String} (htext : Dotted.isRooted text = true)
    {entry : DeclaredType} (hfound : left.resolve? text scope = some entry) :
    right.resolve? text scope = some entry := by
  rw [Catalog.resolve?, if_pos htext] at hfound ⊢
  obtain ⟨hmem, hfull⟩ := Catalog.mem_of_type? hfound
  rw [Catalog.get?, ← hfull]
  exact Catalog.type?_of_mem hright (h.mem_right hleft hright hmem)

/-- The catalogs with and without further files, as one file sees them. -/
def comparison (hfile : file ∈ files) (hplain : file.PlainNames) : Comparison where
  path := file.path
  left := left
  right := right
  faults := False
  texts text := text = "" ∨ Dotted.isRooted text = true
  scopes := file.IsScope
  found htext hfound := by
    obtain rfl | htext := htext
    · rw [(h.closedIn_left hleft hfile).resolve?_empty] at hfound
      cases hfound
    · exact h.resolve?_of_isRooted hleft hright htext hfound
  missed := False.elim
  isShadowed_eq hentry hhome hscope :=
    (h.closedIn_left hleft hfile).isShadowed_eq (h.closedIn_right hright hfile)
      (h.wellNamed file (h.subset file hfile)) hplain hscope
      ((Catalog.mem_types_iff_of_paths_nodup hleft h.paths
        (Catalog.file?_of_mem hleft h.paths hfile)).2 ⟨hentry, hhome⟩)
  fields hentry hm := by
    obtain ⟨home, hhome, hentry⟩ := (Catalog.mem_types_iff hleft).1 hentry
    exact (h.rooted home hhome).fields hentry hm

theorem covers (hfile : file ∈ files) (hplain : file.PlainNames) :
    (h.comparison hleft hright hfile hplain).Covers file where
  messages {scope m} hsite := by
    obtain ⟨entry, hentry, hfull, hm⟩ :=
      (h.wellNamed file (h.subset file hfile)).exists_entry_of_withScopes hsite
    exact ⟨.inl ⟨entry, hentry, hfull⟩, (h.rooted file hfile).fields hentry hm⟩
  services service hservice := by
    refine ⟨.inr ⟨service, hservice, rfl⟩, fun method hmethod => ?_⟩
    obtain ⟨hinput, houtput⟩ := (h.rooted file hfile).2 service hservice method hmethod
    exact ⟨.inr hinput, .inr houtput⟩

/-- The declaration file of a path is the same with further files. -/
theorem output_eq (hfile : file ∈ files) (hplain : file.PlainNames) {settings : Settings}
    {output : Output} (hok : left.output settings file.path = .ok output) :
    right.output settings file.path = .ok output := by
  obtain ⟨t, ht, rfl⟩ := Catalog.typings_of_output hok
  have hfound := Catalog.file?_of_mem hleft h.paths hfile
  have hfound' := Catalog.file?_of_mem hright h.paths_more (h.subset file hfile)
  obtain ⟨t₁, t₂, ht₁, ht₂, hcounterpart⟩ | ⟨fault, hfault, -⟩ :=
    Comparison.typings_lockstep (h.covers hleft hright hfile hplain) hfound hfound' settings
      settings
  · have hsame : t₂ = t₁ := hcounterpart.eq (.refl settings)
    have hright' : right.typings settings file.path = .ok t₂ := ht₂
    have hleft' : left.typings settings file.path = .ok t₁ := ht₁
    rw [ht] at hleft'
    cases hleft'
    rw [Catalog.output_eq_map, hright', hsame]
    rfl
  · have hfault' : left.typings settings file.path = .error fault := hfault
    rw [ht] at hfault'
    cases hfault'

end File.Extension

/-! ## Samples and main result -/

namespace Sample

/-- A file in which a message hides a type from the message inside it. -/
def depot : File where
  name := some "depot.proto"
  package := some "depot"
  dependencies := ["lib/base.proto"]
  messages :=
    [{ name := "Item" },
     { name := "Box"
       fields := [{ name := "items", number := some 1, label := .repeated, typeCode := some 11
                    typeName := ".depot.Box.Item" }]
       nested :=
        [{ name := "Item" },
         { name := "Slot"
           fields :=
            [{ name := "loose", number := some 1, typeCode := some 11, typeName := ".depot.Item" },
             { name := "id", number := some 2, typeCode := some 11, typeName := ".lib.Id" }] }] }]
  services :=
    [{ name := "Store"
       methods := [{ name := "Put", input := ".depot.Item", output := ".lib.Id" }] }]

/-- A further file of the same package. -/
def stock : File where
  name := some "stock.proto"
  package := some "depot"
  messages := [{ name := "Crate", nested := [{ name := "Item" }, { name := "Slot" }] }]

/-- A file whose package begins with a dot. -/
def dotted : File where
  name := some "dotted.proto"
  package := some ".foo"
  messages :=
    [{ name := "M"
       fields := [{ name := "n", number := some 1, typeCode := some 11, typeName := "..foo.N" }] },
     { name := "N" }]

/-- A message that is called like that package without its dot. -/
def foo : File where
  name := some "foo.proto"
  messages := [{ name := "foo", nested := [{ name := "N" }] }]

/-- A file with a service that has dots in its name. -/
def remote : File where
  name := some "remote.proto"
  package := some "p"
  messages := [{ name := "Req" }]
  services :=
    [{ name := "X.Y.S", methods := [{ name := "Call", input := ".p.Req", output := ".p.Req" }] }]

/-- A message that is called like the beginning of that service. -/
def outerX : File where
  name := some "x.proto"
  package := some "p"
  messages := [{ name := "X", nested := [{ name := "Req" }] }]

end Sample

/-- **Adding files to a run.** A run that succeeds makes the same declaration
files with further files, if the requested files have plain names. -/
theorem generate_of_extension {files more : List File} (h : File.Extension files more)
    {request : List String}
    (hplain : ∀ file ∈ files, file.path ∈ request → file.PlainNames) {settings : Settings}
    {outputs : List Output} (hok : generate settings files request = .ok outputs) :
    generate settings more request = .ok outputs := by
  obtain ⟨left, hleft, houtputs⟩ := Catalog.generate_eq_ok_iff.1 hok
  obtain ⟨right, hright⟩ := h.made
  refine Catalog.generate_eq_ok_iff.2 ⟨right, hright, ?_⟩
  have hrequested : ∀ path ∈ requestedPaths request, path ∈ request := fun _ =>
    mem_requestedPaths.1
  have hboth := (List.forall₂_and_left _ _).2 ⟨hrequested, houtputs⟩
  refine hboth.imp fun path output hpath => ?_
  obtain ⟨file, hfound⟩ := Catalog.exists_file_of_output hpath.2
  obtain ⟨hfile, rfl⟩ := Catalog.file?_eq_some hleft hfound
  exact h.output_eq hleft hright hfile (hplain file hfile hpath.1) hpath.2

theorem generate_of_extension_depot :
    File.Extension [Sample.base, Sample.depot] [Sample.base, Sample.depot, Sample.stock] ∧
      ∃ outputs,
        generate {} [Sample.base, Sample.depot] ["depot.proto"] = .ok outputs ∧
        generate {} [Sample.base, Sample.depot, Sample.stock] ["depot.proto"] = .ok outputs := by
  have hext : File.Extension [Sample.base, Sample.depot]
      ([Sample.base, Sample.depot] ++ [Sample.stock]) :=
    File.extension_append (by decide) (by decide) (by decide) (by decide) ⟨_, rfl⟩
  have hrun : ∃ outputs, generate {} [Sample.base, Sample.depot] ["depot.proto"] = .ok outputs := by
    simp only [generate, requestedPaths_singleton]
    exact ⟨_, rfl⟩
  obtain ⟨outputs, hok⟩ := hrun
  exact ⟨hext, outputs, hok, generate_of_extension hext (by decide) hok⟩

/-- **Exceptions.** In a package that begins with a dot, a message without the dot
is taken for the scope around a reference. In a service with dots in its name,
so is a message that is called like the beginning of the service. -/
theorem generate_differs_with_more :
    (File.Extension [Sample.dotted] [Sample.dotted, Sample.foo] ∧
      ∃ outputs, generate {} [Sample.dotted] ["dotted.proto"] = .ok outputs ∧
        generate {} [Sample.dotted, Sample.foo] ["dotted.proto"] ≠ .ok outputs) ∧
    File.Extension [Sample.remote] [Sample.remote, Sample.outerX] ∧
      ∃ outputs, generate {} [Sample.remote] ["remote.proto"] = .ok outputs ∧
        generate {} [Sample.remote, Sample.outerX] ["remote.proto"] ≠ .ok outputs := by
  have hdotted : File.Extension [Sample.dotted] ([Sample.dotted] ++ [Sample.foo]) :=
    File.extension_append (by decide) (by decide) (by decide) (by decide) ⟨_, rfl⟩
  have hremote : File.Extension [Sample.remote] ([Sample.remote] ++ [Sample.outerX]) :=
    File.extension_append (by decide) (by decide) (by decide) (by decide) ⟨_, rfl⟩
  refine ⟨⟨hdotted, ?_⟩, hremote, ?_⟩
  · simp only [generate, requestedPaths_singleton]
    exact ⟨_, rfl, by decide +kernel⟩
  · simp only [generate, requestedPaths_singleton]
    exact ⟨_, rfl, by decide +kernel⟩

end ProtoTypings
