import Mathlib.Data.List.Nodup
import ProtoTypings.Catalog
import ProtoTypings.Proofs.Segments
/-!
# The types of a catalog

What is known about every type that a file declares, however deep.

* `Message.nested_induction`: induction on a message, the messages right
  inside it being smaller.
* `File.exists_outer`: the path of every declared type is a scope joined with
  the type's own name, and what holds of the empty scope and is kept by
  joining holds of that scope.
* `File.WellNamed.localName_inj`: if names can be segments, the path of a type
  is known from its segments.
* `File.WellNamed.owner_induction`: induction on a declared type, the message
  around it being smaller.
-/
namespace ProtoTypings

/-! ## Messages and the types inside them -/

mutual

theorem Message.nested_induction {motive : Message → Prop}
    (step : ∀ m : Message, (∀ n ∈ m.nested, motive n) → motive m) : ∀ m : Message, motive m
  | .mk name fields nested enums isMapEntry =>
    step (.mk name fields nested enums isMapEntry) (Message.forall_nested step nested)

theorem Message.forall_nested {motive : Message → Prop}
    (step : ∀ m : Message, (∀ n ∈ m.nested, motive n) → motive m) :
    ∀ ms : List Message, ∀ m ∈ ms, motive m
  | [] => List.forall_mem_nil _
  | m :: ms =>
    List.forall_mem_cons.2 ⟨Message.nested_induction step m, Message.forall_nested step ms⟩

end

theorem Message.allTypes_eq_flatMap (file package outer : String) (ms : List Message) :
    Message.allTypes file package outer ms = ms.flatMap (Message.types file package outer) := by
  induction ms with
  | nil => rfl
  | cons m ms ih => rw [Message.allTypes, ih, List.flatMap_cons]

theorem Message.types_eq (file package outer : String) (m : Message) :
    m.types file package outer =
      .ofLocal file package (Dotted.join outer m.name) (.message m) ::
        (m.nested.flatMap (Message.types file package (Dotted.join outer m.name)) ++
          m.enums.map (EnumType.declared file package (Dotted.join outer m.name))) := by
  obtain ⟨name, fields, nested, enums, isMapEntry⟩ := m
  rw [Message.types, Message.allTypes_eq_flatMap]

theorem Message.mem_types {file package outer : String} {m : Message} {entry : DeclaredType} :
    entry ∈ m.types file package outer ↔
      entry = .ofLocal file package (Dotted.join outer m.name) (.message m) ∨
        (∃ n ∈ m.nested, entry ∈ n.types file package (Dotted.join outer m.name)) ∨
        ∃ e ∈ m.enums, e.declared file package (Dotted.join outer m.name) = entry := by
  rw [Message.types_eq]
  simp only [List.mem_cons, List.mem_append, List.mem_flatMap, List.mem_map]

theorem File.types_eq (file : File) :
    file.types = file.messages.flatMap (Message.types file.path file.packageName "") ++
      file.enums.map (EnumType.declared file.path file.packageName "") := by
  rw [File.types, Message.allTypes_eq_flatMap]

/-- The name that a type has in its scope. -/
def DeclaredType.simpleName (entry : DeclaredType) : String :=
  match entry.definition with
  | .message m => m.name
  | .enum e => e.name

/-- What is said of every type that a message declares may be said of its own
entry, of the entries of the messages inside it and of its enums. -/
theorem Message.forall_types {file package outer : String} {m : Message}
    {motive : DeclaredType → Prop} :
    (∀ entry ∈ m.types file package outer, motive entry) ↔
      motive (.ofLocal file package (Dotted.join outer m.name) (.message m)) ∧
        (∀ n ∈ m.nested, ∀ entry ∈ n.types file package (Dotted.join outer m.name), motive entry) ∧
        ∀ e ∈ m.enums, motive (e.declared file package (Dotted.join outer m.name)) := by
  constructor
  · intro h
    exact ⟨h _ (Message.mem_types.2 (.inl rfl)),
      fun n hn entry he => h entry (Message.mem_types.2 (.inr (.inl ⟨n, hn, he⟩))),
      fun e he => h _ (Message.mem_types.2 (.inr (.inr ⟨e, he, rfl⟩)))⟩
  · intro hparts entry hentry
    obtain ⟨hown, hnested, henums⟩ := hparts
    obtain rfl | ⟨n, hn, he⟩ | ⟨e, he, rfl⟩ := Message.mem_types.1 hentry
    · exact hown
    · exact hnested n hn entry he
    · exact henums e he

theorem File.forall_types {file : File} {motive : DeclaredType → Prop} :
    (∀ entry ∈ file.types, motive entry) ↔
      (∀ m ∈ file.messages, ∀ entry ∈ m.types file.path file.packageName "", motive entry) ∧
        ∀ e ∈ file.enums, motive (e.declared file.path file.packageName "") := by
  simp only [File.types_eq, List.mem_append, List.mem_flatMap, List.mem_map]
  constructor
  · intro h
    exact ⟨fun m hm entry he => h entry (.inl ⟨m, hm, he⟩), fun e he => h _ (.inr ⟨e, he, rfl⟩)⟩
  · intro hparts entry hentry
    obtain ⟨hmessages, henums⟩ := hparts
    obtain ⟨m, hm, he⟩ | ⟨e, he, rfl⟩ := hentry
    · exact hmessages m hm entry he
    · exact henums e he

theorem Message.eq_ofLocal {file package : String} (m : Message) :
    ∀ outer, ∀ entry ∈ m.types file package outer,
      entry = .ofLocal file package entry.localName entry.definition := by
  induction m using Message.nested_induction with
  | step m ih =>
    intro outer
    rw [Message.forall_types]
    exact ⟨rfl, fun n hn => ih n hn _, fun _ _ => rfl⟩

/-- A declared type is known from its path and its definition. -/
theorem File.eq_ofLocal (file : File) :
    ∀ entry ∈ file.types,
      entry = .ofLocal file.path file.packageName entry.localName entry.definition := by
  rw [File.forall_types]
  exact ⟨fun m _ => m.eq_ofLocal "", fun _ _ => rfl⟩

theorem File.file_of_mem_types {file : File} {entry : DeclaredType} (h : entry ∈ file.types) :
    entry.file = file.path := by rw [file.eq_ofLocal entry h]; rfl

theorem File.fullName_of_mem_types {file : File} {entry : DeclaredType} (h : entry ∈ file.types) :
    entry.fullName = Dotted.join file.packageName entry.localName := by
  rw [file.eq_ofLocal entry h]; rfl

section outer
variable {good motive : String → Prop}
  (step : ∀ scope name, motive scope → good name → motive (Dotted.join scope name))
include step

theorem Message.exists_outer {file package : String} (m : Message) :
    ∀ outer, motive outer → (∀ entry ∈ m.types file package outer, good entry.simpleName) →
      ∀ entry ∈ m.types file package outer,
        ∃ scope, motive scope ∧ entry.localName = Dotted.join scope entry.simpleName := by
  induction m using Message.nested_induction with
  | step m ih =>
    intro outer houter hgood
    rw [Message.forall_types] at hgood
    have hinner : motive (Dotted.join outer m.name) := step _ _ houter hgood.1
    rw [Message.forall_types]
    exact ⟨⟨outer, houter, rfl⟩, fun n hn => ih n hn _ hinner (hgood.2.1 n hn),
      fun e _ => ⟨_, hinner, rfl⟩⟩

/-- The path of a declared type is a scope joined with the type's own name.
What holds of the empty scope, and is kept by joining names that are good,
holds of the scope. -/
theorem File.exists_outer (file : File) (hempty : motive "")
    (hgood : ∀ entry ∈ file.types, good entry.simpleName) :
    ∀ entry ∈ file.types,
      ∃ scope, motive scope ∧ entry.localName = Dotted.join scope entry.simpleName := by
  rw [File.forall_types] at hgood ⊢
  exact ⟨fun m hm => m.exists_outer step "" hempty (hgood.1 m hm), fun e _ => ⟨"", hempty, rfl⟩⟩

end outer

/-! ## Names of types -/

theorem nodup_map_of_mem {α β γ : Type} {xs : List α} {f : α → List β} {g : β → γ}
    (h : ((xs.flatMap f).map g).Nodup) {x : α} (hx : x ∈ xs) : ((f x).map g).Nodup := by
  obtain ⟨before, after, rfl⟩ := List.append_of_mem hx
  rw [List.flatMap_append, List.flatMap_cons, List.map_append, List.map_append] at h
  exact h.of_append_right.of_append_left

/-- Every type of a file has a name that can be a segment. -/
def File.WellNamed (file : File) : Prop :=
  ∀ entry ∈ file.types, Dotted.IsSegment entry.simpleName

instance (file : File) : Decidable file.WellNamed :=
  inferInstanceAs (Decidable (∀ entry ∈ file.types, Dotted.IsSegment entry.simpleName))

def File.Named (file : File) : Prop :=
  ∀ entry ∈ file.types, entry.simpleName ≠ ""

instance (file : File) : Decidable file.Named :=
  inferInstanceAs (Decidable (∀ entry ∈ file.types, entry.simpleName ≠ ""))

theorem File.WellNamed.named {file : File} (h : file.WellNamed) : file.Named :=
  fun entry hentry => (h entry hentry).1

theorem File.WellNamed.ofSegments_segments {file : File} (h : file.WellNamed)
    {entry : DeclaredType} (he : entry ∈ file.types) :
    Dotted.ofSegments (Dotted.segments entry.localName) = entry.localName := by
  obtain ⟨scope, hscope, hlocal⟩ :=
    file.exists_outer (motive := fun s => Dotted.ofSegments (Dotted.segments s) = s)
      (fun _ _ hs hn => Dotted.ofSegments_segments_join hn hs) (by decide) h entry he
  rw [hlocal]
  exact Dotted.ofSegments_segments_join (h entry he) hscope

/-- In a file with good names the segments of a path tell the path. -/
theorem File.WellNamed.localName_inj {file : File} (h : file.WellNamed)
    {a b : DeclaredType} (ha : a ∈ file.types) (hb : b ∈ file.types)
    (heq : Dotted.segments a.localName = Dotted.segments b.localName) :
    a.localName = b.localName := by
  rw [← h.ofSegments_segments ha, ← h.ofSegments_segments hb, heq]

section owners
variable {file : File} {motive : DeclaredType → Prop}

/-- What holds of a message and passes on to what is declared right inside a
message holds of all that is declared inside it. -/
theorem Message.owner_induction (h : file.WellNamed)
    (inner : ∀ entry ∈ file.types, ∀ owner ∈ file.types, owner.isMessage = true → motive owner →
      entry.fullName = Dotted.join owner.fullName entry.simpleName → motive entry)
    (m : Message) :
    ∀ outer, (∀ entry ∈ m.types file.path file.packageName outer, entry ∈ file.types) →
      motive (.ofLocal file.path file.packageName (Dotted.join outer m.name) (.message m)) →
      ∀ entry ∈ m.types file.path file.packageName outer, motive entry := by
  induction m using Message.nested_induction with
  | step m ih =>
    intro outer htypes hown
    rw [Message.forall_types] at htypes ⊢
    obtain ⟨hmem, hnested, henums⟩ := htypes
    have hne : Dotted.join outer m.name ≠ "" := Dotted.join_ne_empty outer (h _ hmem).1
    refine ⟨hown, fun n hn => ih n hn _ (hnested n hn) ?_, fun e he => ?_⟩
    · obtain ⟨hn, -⟩ := Message.forall_types.1 (hnested n hn)
      exact inner _ hn _ hmem rfl hown (Dotted.join_join file.packageName hne n.name)
    · exact inner _ (henums e he) _ hmem rfl hown (Dotted.join_join file.packageName hne e.name)

/-- What holds of the types at the top of a file, and passes on to what is
declared right inside a message, holds of all types of the file. -/
theorem File.WellNamed.owner_induction (h : file.WellNamed)
    (top : ∀ entry ∈ file.types,
      entry.fullName = Dotted.join file.packageName entry.simpleName → motive entry)
    (inner : ∀ entry ∈ file.types, ∀ owner ∈ file.types, owner.isMessage = true → motive owner →
      entry.fullName = Dotted.join owner.fullName entry.simpleName → motive entry) :
    ∀ entry ∈ file.types, motive entry := by
  obtain ⟨hmessages, henums⟩ :=
    File.forall_types.1 fun entry (hentry : entry ∈ file.types) => hentry
  rw [File.forall_types]
  constructor
  · intro m hm
    refine m.owner_induction h inner "" (hmessages m hm) (top _ ?_ ?_)
    · exact (Message.forall_types.1 (hmessages m hm)).1
    · simp [DeclaredType.ofLocal, DeclaredType.simpleName]
  · intro e he
    refine top _ (henums e he) ?_
    simp [EnumType.declared, DeclaredType.ofLocal, DeclaredType.simpleName]

end owners

theorem File.WellNamed.exists_scope {file : File} (h : file.WellNamed) :
    ∀ entry ∈ file.types, ∃ scope name, Dotted.IsSegment name ∧
      entry.fullName = Dotted.join scope name := by
  refine h.owner_induction ?_ ?_
  · intro entry hentry hfull
    exact ⟨_, _, h entry hentry, hfull⟩
  · intro entry hentry owner _ _ _ hfull
    exact ⟨_, _, h entry hentry, hfull⟩

/-- A text without the character that divides the scope of a remembered
reference from its text. -/
def Text.NulFree (s : String) : Prop := '\x00' ∉ s.toList

instance (s : String) : Decidable (Text.NulFree s) :=
  inferInstanceAs (Decidable (¬ _))

theorem Text.NulFree.join {scope name : String} (hscope : Text.NulFree scope)
    (hname : Text.NulFree name) : Text.NulFree (Dotted.join scope name) := by
  by_cases hs : scope = ""
  · simpa [hs] using hname
  · rw [Dotted.join_of_ne hs]
    simp only [Text.NulFree, String.toList_append, List.mem_append, not_or]
    exact ⟨⟨hscope, by decide⟩, hname⟩

theorem Text.NulFree.of_join {scope name : String} (h : Text.NulFree (Dotted.join scope name)) :
    Text.NulFree name := by
  by_cases hs : scope = ""
  · simpa [hs] using h
  · rw [Dotted.join_of_ne hs] at h
    simp only [Text.NulFree, String.toList_append, List.mem_append, not_or] at h
    exact h.2

theorem Text.NulFree.parent {name : String} (h : Text.NulFree name) :
    Text.NulFree (Dotted.parent name) :=
  fun hmem => h (Dotted.mem_toList_of_mem_parent hmem)

/-- The package and the names of the types of a file are free of NUL. -/
def File.NulFree (file : File) : Prop :=
  Text.NulFree file.packageName ∧ ∀ entry ∈ file.types, Text.NulFree entry.simpleName

instance (file : File) : Decidable file.NulFree :=
  inferInstanceAs (Decidable (_ ∧ ∀ entry ∈ file.types, Text.NulFree entry.simpleName))

theorem File.NulFree.fullName {file : File} (h : file.NulFree) {entry : DeclaredType}
    (he : entry ∈ file.types) : Text.NulFree entry.fullName := by
  obtain ⟨scope, hscope, hlocal⟩ :=
    file.exists_outer (fun _ _ hs hn => Text.NulFree.join hs hn) (by decide) h.2 entry he
  rw [File.fullName_of_mem_types he, hlocal]
  exact h.1.join (hscope.join (h.2 entry he))

end ProtoTypings
