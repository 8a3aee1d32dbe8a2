import Mathlib.Tactic.MkIffOfInductiveProp
import ProtoTypings.Proofs.Counterparts
import ProtoTypings.Proofs.NameClashes
/-!
# Elements of a file that have a location

Messages, fields, enums, enum values, services and methods each have a path of
their own, under which the comments of a file are kept. A path is made of field
numbers and positions, and one number stands for different lists at different
depths: 4 is a message of a file and an enum of a message, and 2 is a field, a
value and a method.

* `Place`: where the outline shows an element.
* `File.elements`: the elements of a file, each with its place and its path.
* `Spread`: elements with different keys below one stem. `Spread.node` puts
  them together from branches with different labels; paths and places both
  branch this way.
* `File.paths_nodup`, `File.places_nodup`: no two elements of a file have one path,
  and no two that are kept have one place.
* `EnumValue.firstOfNumber_zipIdx`: the values of an enum that are kept.
-/
namespace ProtoTypings

/-- A place of an outline where comments can stand. A declaration is known by the
scopes around it and its own name, a property or an operation also by its position,
and an enumerator by its number. -/
inductive Place where
  | interface (chain : List String)
  | property (chain : List String) (index : Nat) (name : String)
  | enumeration (chain : List String)
  | enumerator (chain : List String) (number : Int32) (name : String)
  | service (chain : List String)
  | operation (chain : List String) (index : Nat) (name : String)
  deriving DecidableEq, Repr

namespace Place

/-- The names that lead to the declaration of a place. -/
def chain : Place → List String
  | interface chain | property chain _ _ | enumeration chain | enumerator chain _ _
  | service chain | operation chain _ _ => chain

/-- What a place shows of two comments: a declaration shows only what stands above
it. -/
def shown : Place → Comment → Comment
  | interface _, comment | enumeration _, comment | service _, comment =>
    { leading := comment.leading }
  | property .., comment | enumerator .., comment | operation .., comment => comment

end Place

/-- An element of a file: the place that shows it, and its path. -/
structure Element where
  place : Place
  path : List Int32
  deriving DecidableEq, Repr

/-- A value at a position of the enum that `chain` leads to. -/
def EnumValue.element (chain : List String) (path : List Int32) (value : EnumValue × Nat) :
    Element :=
  ⟨.enumerator chain value.1.code value.1.name, PathStep.enumValue.child path value.2⟩

/-- A field at a position of the message that `chain` leads to. -/
def Field.element (settings : Settings) (chain : List String) (path : List Int32)
    (field : Field × Nat) : Element :=
  ⟨.property chain field.2 (settings.casing.name .field field.1.name),
    PathStep.messageField.child path field.2⟩

/-- A method at a position of the service that `chain` leads to. -/
def Method.element (settings : Settings) (chain : List String) (path : List Int32)
    (method : Method × Nat) : Element :=
  ⟨.operation chain method.2 (settings.casing.name .method method.1.name),
    PathStep.serviceMethod.child path method.2⟩

/-- The elements of an enum in the scope that `chain` leads to. Its values are those
that `values` gives, with their positions. -/
def EnumType.elements (values : EnumType → List (EnumValue × Nat)) (chain : List String)
    (path : List Int32) (enum : EnumType) : List Element :=
  ⟨.enumeration (chain ++ [enum.name]), path⟩ ::
    (values enum).map (EnumValue.element (chain ++ [enum.name]) path)

mutual

/-- The elements of a message in the scope that `chain` leads to. -/
def Message.elements (settings : Settings) (values : EnumType → List (EnumValue × Nat))
    (chain : List String) (path : List Int32) : Message → List Element
  | .mk name fields nested enums _ =>
    ⟨.interface (chain ++ [name]), path⟩ ::
      fields.zipIdx.map (Field.element settings (chain ++ [name]) path) ++
      (enums.zipIdx.flatMap fun (enum, index) =>
        enum.elements values (chain ++ [name]) (PathStep.messageEnum.child path index)) ++
      Message.allElements settings values (chain ++ [name]) path .messageNested 0 nested

/-- The elements of messages that begin at a position of a list. -/
def Message.allElements (settings : Settings) (values : EnumType → List (EnumValue × Nat))
    (chain : List String) (path : List Int32) (step : PathStep) (index : Nat) :
    List Message → List Element
  | [] => []
  | message :: rest =>
    Message.elements settings values chain (step.child path index) message ++
      Message.allElements settings values chain path step (index + 1) rest

end

def Service.elements (settings : Settings) (path : List Int32) (service : Service) :
    List Element :=
  ⟨.service [service.interfaceName], path⟩ ::
    service.methods.zipIdx.map (Method.element settings [service.interfaceName] path)

def File.elements (settings : Settings) (values : EnumType → List (EnumValue × Nat))
    (file : File) : List Element :=
  (file.enums.zipIdx.flatMap fun (enum, index) =>
    enum.elements values [] (PathStep.fileEnum.child [] index)) ++
  Message.allElements settings values [] [] .fileMessage 0 file.messages ++
  file.services.zipIdx.flatMap fun (service, index) =>
    service.elements settings (PathStep.fileService.child [] index)

def EnumType.allValues (enum : EnumType) : List (EnumValue × Nat) := enum.values.zipIdx

/-- The values of an enum whose number no value before them has. The others are
aliases. -/
def EnumType.firstValues (enum : EnumType) : List (EnumValue × Nat) :=
  enum.values.zipIdx.filter fun value =>
    value.1.code ∉ (enum.values.take value.2).map EnumValue.code

theorem EnumType.firstValues_sublist (enum : EnumType) :
    enum.firstValues.Sublist enum.allValues :=
  List.filter_sublist

namespace Message

variable {settings : Settings} {values : EnumType → List (EnumValue × Nat)}

theorem allElements_eq_flatMap (chain : List String) (path : List Int32) (step : PathStep)
    (ms : List Message) (index : Nat) :
    allElements settings values chain path step index ms =
      (ms.zipIdx index).flatMap fun m =>
        m.1.elements settings values chain (step.child path m.2) := by
  induction ms generalizing index with
  | nil => rfl
  | cons m ms ih => rw [allElements, ih, List.zipIdx_cons, List.flatMap_cons]

theorem elements_eq (chain : List String) (path : List Int32) (m : Message) :
    m.elements settings values chain path =
      ⟨.interface (chain ++ [m.name]), path⟩ ::
        m.fields.zipIdx.map (Field.element settings (chain ++ [m.name]) path) ++
        (m.enums.zipIdx.flatMap fun enum =>
          enum.1.elements values (chain ++ [m.name]) (PathStep.messageEnum.child path enum.2)) ++
        m.nested.zipIdx.flatMap fun n =>
          n.1.elements settings values (chain ++ [m.name])
            (PathStep.messageNested.child path n.2) := by
  obtain ⟨name, fields, nested, enums, isMapEntry⟩ := m
  rw [elements, allElements_eq_flatMap]

end Message

/-! ## Which values are kept -/

theorem EnumValue.firstOfNumber_zipIdx_from (values : List EnumValue) :
    ∀ (seen : List Int32) (start : Nat),
      firstOfNumber seen (values.zipIdx start) = (values.zipIdx start).filter fun value =>
        value.1.code ∉ seen ++ (values.take (value.2 - start)).map code := by
  induction values with
  | nil => exact fun _ _ => rfl
  | cons first rest ih =>
    intro seen start
    -- a later value must differ from `first` too
    have hlater : ∀ value ∈ rest.zipIdx (start + 1),
        (first :: rest).take (value.2 - start) = first :: rest.take (value.2 - (start + 1)) := by
      intro value hvalue
      have hle : start + 1 ≤ value.2 := List.le_snd_of_mem_zipIdx hvalue
      obtain ⟨n, hn⟩ : ∃ n, value.2 = start + 1 + n := Nat.exists_eq_add_of_le hle
      have hposition : value.2 - start = n + 1 := by omega
      have hnext : value.2 - (start + 1) = n := by omega
      rw [hposition, hnext, List.take_succ_cons]
    rw [List.zipIdx_cons, firstOfNumber, List.filter_cons]
    by_cases hseen : first.code ∈ seen
    · rw [if_pos hseen, ih]
      simp only [hseen, Nat.sub_self, List.take_zero, List.map_nil, List.append_nil, not_true,
        decide_false, Bool.false_eq_true, if_false]
      refine List.filter_congr fun value hvalue => ?_
      rw [hlater value hvalue]
      grind
    · rw [if_neg hseen, ih]
      simp only [hseen, Nat.sub_self, List.take_zero, List.map_nil, List.append_nil,
        not_false_iff, decide_true, if_true]
      congr 1
      refine List.filter_congr fun value hvalue => ?_
      rw [hlater value hvalue]
      grind

/-- An enum keeps the values whose number no value before them has. -/
theorem EnumValue.firstOfNumber_zipIdx (enum : EnumType) :
    firstOfNumber [] enum.values.zipIdx = enum.firstValues := by
  rw [firstOfNumber_zipIdx_from]
  rfl

/-! ## Branches with different labels -/

/-- Elements with different keys, where the addresses of all keys begin with one
stem. -/
def Spread {κ γ : Type} (key : Element → κ) (address : κ → List γ) (stem : List γ)
    (elements : List Element) : Prop :=
  (elements.map key).Nodup ∧ ∀ e ∈ elements, stem <+: address (key e)

namespace Spread

variable {κ γ : Type} {key : Element → κ} {address : κ → List γ} {stem : List γ}

theorem nodup {elements : List Element} (h : Spread key address stem elements) :
    (elements.map key).Nodup := h.1

/-- Two labels after one stem are the same if one address begins with both. -/
theorem label_inj {a b : γ} {rest : List γ} (ha : stem ++ [a] <+: rest)
    (hb : stem ++ [b] <+: rest) : a = b := by
  obtain ⟨s, rfl⟩ := ha
  obtain ⟨t, ht⟩ := hb
  simp only [List.append_assoc, List.append_cancel_left_eq, List.singleton_append,
    List.cons.injEq] at ht
  exact ht.1.symm

theorem not_isPrefix_self (a : γ) : ¬ stem ++ [a] <+: stem := by
  intro h
  have hlength := h.length_le
  rw [List.length_append, List.length_singleton] at hlength
  omega

/-- **Elements of a node.** The node's own elements have the stem for their address;
each branch goes on with a label of its own. -/
theorem node {ι : Type} (own : List Element) {branches : List ι} (label : ι → γ)
    {below : ι → List Element} (hown : (own.map key).Nodup)
    (haddress : ∀ e ∈ own, address (key e) = stem) (hlabels : (branches.map label).Nodup)
    (h : ∀ b ∈ branches, Spread key address (stem ++ [label b]) (below b)) :
    Spread key address stem (own ++ branches.flatMap below) := by
  have hbelow : ∀ e ∈ branches.flatMap below,
      ∃ b ∈ branches, stem ++ [label b] <+: address (key e) := by
    intro e he
    obtain ⟨b, hb, hmem⟩ := List.mem_flatMap.1 he
    exact ⟨b, hb, (h b hb).2 e hmem⟩
  constructor
  · rw [List.map_append]
    refine hown.append ?_ ?_
    · rw [List.map_flatMap, List.nodup_flatMap]
      refine ⟨fun b hb => (h b hb).1, ?_⟩
      refine (List.pairwise_map.1 hlabels).imp_of_mem fun {b c} hb hc hne => ?_
      intro k hk hk'
      obtain ⟨e, he, rfl⟩ := List.mem_map.1 hk
      obtain ⟨e', he', heq⟩ := List.mem_map.1 hk'
      have hprefix := (h c hc).2 e' he'
      rw [heq] at hprefix
      exact hne (label_inj ((h b hb).2 e he) hprefix)
    · intro k hk hk'
      obtain ⟨e, he, rfl⟩ := List.mem_map.1 hk
      obtain ⟨e', he', heq⟩ := List.mem_map.1 hk'
      obtain ⟨b, -, hprefix⟩ := hbelow e' he'
      rw [heq, haddress e he] at hprefix
      exact not_isPrefix_self (label b) hprefix
  · intro e he
    rcases List.mem_append.1 he with he | he
    · rw [haddress e he]
    · obtain ⟨b, -, hprefix⟩ := hbelow e he
      exact (List.prefix_append stem [label b]).trans hprefix

end Spread

/-! ## Paths -/

/-- A message whose lists have positions of 31 bits. -/
@[mk_iff]
structure Message.Bounded (m : Message) : Prop where
  fields : m.fields.length < 2 ^ 31
  nested : m.nested.length < 2 ^ 31
  enums : m.enums.length < 2 ^ 31
  values : ∀ enum ∈ m.enums, enum.values.length < 2 ^ 31

instance (m : Message) : Decidable m.Bounded :=
  decidable_of_iff _ (Message.bounded_iff m).symm

/-- A file whose lists have positions of 31 bits, at every depth. -/
@[mk_iff]
structure File.Bounded (file : File) : Prop where
  enums : file.enums.length < 2 ^ 31
  messages : file.messages.length < 2 ^ 31
  services : file.services.length < 2 ^ 31
  values : ∀ enum ∈ file.enums, enum.values.length < 2 ^ 31
  methods : ∀ service ∈ file.services, service.methods.length < 2 ^ 31
  inner : ∀ m ∈ file.withScopes, m.2.Bounded

instance (file : File) : Decidable file.Bounded :=
  decidable_of_iff _ (File.bounded_iff file).symm

/-- Elements with different paths, all of which begin with `path`. -/
def Below (path : List Int32) (elements : List Element) : Prop :=
  Spread Element.path id path elements

namespace Below

theorem leaf (e : Element) : Below e.path [e] := by
  simp [Below, Spread]

/-- The elements of a list: each position has elements of its own. -/
theorem list {α : Type} {xs : List α} (hlength : xs.length < 2 ^ 31) {path : List Int32}
    {step : PathStep} {f : α × Nat → List Element}
    (h : ∀ x ∈ xs.zipIdx, Below (step.child path x.2) (f x)) :
    Below (path ++ [step.number]) (xs.zipIdx.flatMap f) := by
  have hlabels : (xs.zipIdx.map fun x => Int32.ofNat x.2).Nodup := by
    have hsplit : (xs.zipIdx.map fun x => Int32.ofNat x.2) =
        (List.range' 0 xs.length).map Int32.ofNat := by
      rw [← List.zipIdx_map_snd, List.map_map]
      rfl
    rw [hsplit]
    refine List.Nodup.map_on (fun i hi j hj heq => ?_) List.nodup_range'
    rw [List.mem_range'_1] at hi hj
    have hinj := congrArg Int32.toInt heq
    rw [Int32.toInt_ofNat_of_lt (by omega), Int32.toInt_ofNat_of_lt (by omega)] at hinj
    exact Int.ofNat_inj.1 hinj
  refine Spread.node [] _ List.nodup_nil (List.forall_mem_nil _) hlabels fun x hx => ?_
  have hchild := h x hx
  rw [PathStep.child, Location.child] at hchild
  rwa [List.append_assoc]

/-- An element and the lists below it, each under a number of its own. -/
theorem node (place : Place) {path : List Int32} (branches : List (Int32 × List Element))
    (hnumbers : (branches.map Prod.fst).Nodup)
    (h : ∀ b ∈ branches, Below (path ++ [b.1]) b.2) :
    Below path (⟨place, path⟩ :: branches.flatMap Prod.snd) :=
  Spread.node [⟨place, path⟩] Prod.fst (by simp) (by simp) hnumbers h

section members
variable {α : Type} {xs : List α} {path : List Int32} {step : PathStep}
  {member : α × Nat → Element} (hlength : xs.length < 2 ^ 31)
  (hpath : ∀ x, (member x).path = step.child path x.2)
include hlength hpath

theorem members : Below (path ++ [step.number]) (xs.zipIdx.map member) := by
  rw [List.map_eq_flatMap]
  exact list hlength fun x _ => hpath x ▸ leaf (member x)

/-- An element that has one list of members and nothing else below it. -/
theorem declaration (place : Place) : Below path (⟨place, path⟩ :: xs.zipIdx.map member) := by
  have hnode := node place [(_, _)] (by simp) (by simpa using members hlength hpath)
  simpa using hnode

end members
end Below

theorem EnumType.below_elements {enum : EnumType} (hlength : enum.values.length < 2 ^ 31)
    (chain : List String) (path : List Int32) :
    Below path (enum.elements allValues chain path) :=
  Below.declaration hlength (fun _ => rfl) _

theorem Service.below_elements {service : Service} (hlength : service.methods.length < 2 ^ 31)
    (settings : Settings) (path : List Int32) :
    Below path (service.elements settings path) :=
  Below.declaration hlength (fun _ => rfl) _

/-- The elements of a message lie below its path, fields, enums and messages under
numbers that differ. -/
theorem Message.below_elements (settings : Settings) (m : Message) :
    ∀ outer chain path, (∀ n ∈ m.withScopes outer, n.2.Bounded) →
      Below path (m.elements settings EnumType.allValues chain path) := by
  induction m using Message.nested_induction with
  | step m ih =>
    intro outer chain path hbounded
    rw [Message.withScopes_eq, List.forall_mem_cons] at hbounded
    obtain ⟨hown, hinner⟩ := hbounded
    have hfields : Below (path ++ [PathStep.messageField.number])
        (m.fields.zipIdx.map (Field.element settings (chain ++ [m.name]) path)) :=
      Below.members hown.fields fun _ => rfl
    have henums : Below (path ++ [PathStep.messageEnum.number]) (m.enums.zipIdx.flatMap
        fun enum => enum.1.elements EnumType.allValues (chain ++ [m.name])
          (PathStep.messageEnum.child path enum.2)) :=
      Below.list hown.enums fun enum henum =>
        EnumType.below_elements (hown.values enum.1 (List.fst_mem_of_mem_zipIdx henum)) _ _
    have hnested : Below (path ++ [PathStep.messageNested.number]) (m.nested.zipIdx.flatMap
        fun n => n.1.elements settings EnumType.allValues (chain ++ [m.name])
          (PathStep.messageNested.child path n.2)) := by
      refine Below.list hown.nested fun n hn => ?_
      have hmem := List.fst_mem_of_mem_zipIdx hn
      exact ih n.1 hmem (Dotted.join outer m.name) _ _ fun inner hinner' =>
        hinner inner (List.mem_flatMap.2 ⟨n.1, hmem, hinner'⟩)
    have hnode := Below.node (.interface (chain ++ [m.name])) [(_, _), (_, _), (_, _)]
      (by decide : [PathStep.messageField.number, PathStep.messageEnum.number,
        PathStep.messageNested.number].Nodup)
      (by simpa using ⟨hfields, henums, hnested⟩)
    rw [elements_eq]
    simpa using hnode

/-- **Paths of a file.** No two elements of a file have the same path. -/
theorem File.paths_nodup {file : File} (hbounded : file.Bounded) (settings : Settings) :
    ((file.elements settings EnumType.allValues).map Element.path).Nodup := by
  have henums : Below ([] ++ [PathStep.fileEnum.number]) (file.enums.zipIdx.flatMap
      fun enum => enum.1.elements EnumType.allValues [] (PathStep.fileEnum.child [] enum.2)) :=
    Below.list hbounded.enums fun enum henum =>
      EnumType.below_elements (hbounded.values enum.1 (List.fst_mem_of_mem_zipIdx henum)) _ _
  have hmessages : Below ([] ++ [PathStep.fileMessage.number]) (file.messages.zipIdx.flatMap
      fun m => m.1.elements settings EnumType.allValues []
        (PathStep.fileMessage.child [] m.2)) := by
    refine Below.list hbounded.messages fun m hm => ?_
    refine m.1.below_elements settings file.packageName _ _ fun inner hinner => ?_
    refine hbounded.inner inner ?_
    rw [File.withScopes, Message.allWithScopes_eq_flatMap]
    exact List.mem_flatMap.2 ⟨m.1, List.fst_mem_of_mem_zipIdx hm, hinner⟩
  have hservices : Below ([] ++ [PathStep.fileService.number]) (file.services.zipIdx.flatMap
      fun service => service.1.elements settings (PathStep.fileService.child [] service.2)) :=
    Below.list hbounded.services fun service hservice =>
      Service.below_elements (hbounded.methods service.1 (List.fst_mem_of_mem_zipIdx hservice)) _ _
  have hnode : Below [] ([] ++ [(_, _), (_, _), (_, _)].flatMap Prod.snd) :=
    Spread.node [] Prod.fst List.nodup_nil (List.forall_mem_nil _)
      (by decide : [PathStep.fileEnum.number, PathStep.fileMessage.number,
        PathStep.fileService.number].Nodup)
      (by simpa using ⟨henums, hmessages, hservices⟩)
  rw [elements, Message.allElements_eq_flatMap]
  simpa using hnode.nodup

/-! ## Elements without aliases -/

section values
variable {settings : Settings} {values values' : EnumType → List (EnumValue × Nat)}
  (h : ∀ enum, (values enum).Sublist (values' enum))
include h

theorem EnumType.elements_sublist (chain : List String) (path : List Int32) (enum : EnumType) :
    (enum.elements values chain path).Sublist (enum.elements values' chain path) :=
  ((h enum).map _).cons_cons _

theorem Message.elements_sublist (m : Message) :
    ∀ chain path, (m.elements settings values chain path).Sublist
      (m.elements settings values' chain path) := by
  induction m using Message.nested_induction with
  | step m ih =>
    intro chain path
    rw [elements_eq, elements_eq]
    refine ((List.Sublist.refl _).append ?_).append ?_
    · exact List.Sublist.flatMap_right _ fun enum _ => enum.1.elements_sublist h _ _
    · exact List.Sublist.flatMap_right _ fun n hn => ih n.1 (List.fst_mem_of_mem_zipIdx hn) _ _

theorem File.elements_sublist (file : File) :
    (file.elements settings values).Sublist (file.elements settings values') := by
  rw [elements, elements, Message.allElements_eq_flatMap, Message.allElements_eq_flatMap]
  refine (List.Sublist.append ?_ ?_).append (List.Sublist.refl _)
  · exact List.Sublist.flatMap_right _ fun enum _ => enum.1.elements_sublist h _ _
  · exact List.Sublist.flatMap_right _ fun m _ => m.1.elements_sublist h _ _

end values

/-! ## Places -/

/-- Elements at different places, in the scope that `chain` leads to or inside. -/
def Within (chain : List String) (elements : List Element) : Prop :=
  Spread Element.place Place.chain chain elements

theorem EnumValue.codes_firstOfNumber (values : List (EnumValue × Nat)) :
    ∀ seen, ((firstOfNumber seen values).map fun value => value.1.code).Nodup ∧
      ∀ value ∈ firstOfNumber seen values, value.1.code ∉ seen := by
  induction values with
  | nil => simp [firstOfNumber]
  | cons first rest ih =>
    intro seen
    obtain ⟨value, index⟩ := first
    rw [firstOfNumber]
    by_cases hseen : value.code ∈ seen
    · rw [if_pos hseen]
      exact ih seen
    · obtain ⟨hnodup, hfresh⟩ := ih (value.code :: seen)
      rw [if_neg hseen, List.map_cons, List.nodup_cons, List.forall_mem_cons]
      refine ⟨⟨?_, hnodup⟩, hseen, ?_⟩
      · intro hmem
        obtain ⟨other, hother, heq⟩ := List.mem_map.1 hmem
        exact hfresh other hother (by simp [heq])
      · exact fun other hother hmem => hfresh other hother (List.mem_cons_of_mem _ hmem)

theorem EnumType.codes_firstValues_nodup (enum : EnumType) :
    (enum.firstValues.map fun value => value.1.code).Nodup := by
  rw [← EnumValue.firstOfNumber_zipIdx]
  exact (EnumValue.codes_firstOfNumber _ []).1

theorem members_nodup {α : Type} {declaration : Element} {xs : List α} {member : α → Element}
    (hdeclaration : ∀ x, declaration.place ≠ (member x).place)
    (hmembers : xs.Pairwise fun x y => (member x).place ≠ (member y).place) :
    ((declaration :: xs.map member).map Element.place).Nodup := by
  rw [List.map_cons, List.map_map, List.nodup_cons]
  refine ⟨?_, List.pairwise_map.2 hmembers⟩
  intro hmem
  obtain ⟨x, -, heq⟩ := List.mem_map.1 hmem
  exact hdeclaration x heq.symm

theorem Within.of_chain {chain : List String} {elements : List Element}
    (hnodup : (elements.map Element.place).Nodup) (hchain : ∀ e ∈ elements, e.place.chain = chain) :
    Within chain elements :=
  ⟨hnodup, fun e he => by rw [hchain e he]⟩

theorem EnumType.within_elements (enum : EnumType) (chain : List String) (path : List Int32) :
    Within (chain ++ [enum.name]) (enum.elements firstValues chain path) := by
  refine .of_chain (members_nodup (fun _ => Place.noConfusion) ?_) ?_
  · refine (List.pairwise_map.1 enum.codes_firstValues_nodup).imp fun hne heq => hne ?_
    exact (Place.enumerator.inj heq).2.1
  · rw [elements, List.forall_mem_cons, List.forall_mem_map]
    exact ⟨rfl, fun _ _ => rfl⟩

theorem positions_pairwise {α : Type} (xs : List α) :
    xs.zipIdx.Pairwise fun x y => x.2 ≠ y.2 := by
  have hpositions : (xs.zipIdx.map Prod.snd).Nodup := by
    rw [List.zipIdx_map_snd]
    exact List.nodup_range'
  exact List.pairwise_map.1 hpositions

theorem Service.within_elements (settings : Settings) (service : Service) (path : List Int32) :
    Within [service.interfaceName] (service.elements settings path) := by
  refine .of_chain (members_nodup (fun _ => Place.noConfusion) ?_) ?_
  · refine (positions_pairwise service.methods).imp fun hne heq => hne ?_
    exact (Place.operation.inj heq).2.1
  · rw [elements, List.forall_mem_cons, List.forall_mem_map]
    exact ⟨rfl, fun _ _ => rfl⟩

/-- The elements of a message have places of their own, since the types inside it
have different names. -/
theorem Message.within_elements {file package : String} (settings : Settings) (m : Message) :
    ∀ outer chain path, ((m.types file package outer).map (·.fullName)).Nodup →
      Within (chain ++ [m.name]) (m.elements settings EnumType.firstValues chain path) := by
  induction m using Message.nested_induction with
  | step m ih =>
    intro outer chain path hnodup
    have hnames := inner_names_nodup hnodup
    rw [List.nodup_append_comm, ← map_zipIdx m.enums, ← map_zipIdx m.nested] at hnames
    have helements : m.elements settings EnumType.firstValues chain path =
        (⟨.interface (chain ++ [m.name]), path⟩ ::
          m.fields.zipIdx.map (Field.element settings (chain ++ [m.name]) path)) ++
        ((m.enums.zipIdx.map fun enum => (enum.1.name, enum.1.elements EnumType.firstValues
          (chain ++ [m.name]) (PathStep.messageEnum.child path enum.2))) ++
        m.nested.zipIdx.map fun n => (n.1.name, n.1.elements settings EnumType.firstValues
          (chain ++ [m.name]) (PathStep.messageNested.child path n.2))).flatMap Prod.snd := by
      rw [elements_eq, List.flatMap_append, List.flatMap_map, List.flatMap_map, List.append_assoc]
    rw [helements]
    refine Spread.node _ Prod.fst (members_nodup (fun _ => Place.noConfusion) ?_) ?_ ?_ ?_
    · refine (positions_pairwise m.fields).imp fun hne heq => hne ?_
      exact (Place.property.inj heq).2.1
    · rw [List.forall_mem_cons, List.forall_mem_map]
      exact ⟨rfl, fun _ _ => rfl⟩
    · simpa only [List.map_append, List.map_map, Function.comp_def] using hnames
    · simp only [List.forall_mem_append, List.forall_mem_map]
      refine ⟨fun enum _ => enum.1.within_elements _ _, fun n hn => ?_⟩
      have hmem := List.fst_mem_of_mem_zipIdx hn
      exact ih n.1 hmem _ _ _ (nodup_of_mem_nested hnodup hmem)

/-- **Places of a file.** If no name is declared twice, no two elements that are kept
have the same place. -/
theorem File.places_nodup {file : File} (hnodup : (file.types.map (·.fullName)).Nodup)
    (hnames : (file.enums.map (·.name) ++ file.messages.map (·.name) ++
      file.services.map Service.interfaceName).Nodup) (settings : Settings) :
    ((file.elements settings EnumType.firstValues).map Element.place).Nodup := by
  rw [← map_zipIdx file.enums, ← map_zipIdx file.messages, ← map_zipIdx file.services] at hnames
  have helements : file.elements settings EnumType.firstValues = [] ++
      ((file.enums.zipIdx.map fun enum => (enum.1.name, enum.1.elements EnumType.firstValues
        [] (PathStep.fileEnum.child [] enum.2))) ++
      (file.messages.zipIdx.map fun m => (m.1.name, m.1.elements settings EnumType.firstValues
        [] (PathStep.fileMessage.child [] m.2))) ++
      file.services.zipIdx.map fun service => (service.1.interfaceName,
        service.1.elements settings (PathStep.fileService.child [] service.2))).flatMap
        Prod.snd := by
    rw [elements, Message.allElements_eq_flatMap, List.flatMap_append, List.flatMap_append,
      List.flatMap_map, List.flatMap_map, List.flatMap_map, List.nil_append]
  have hnode : Within [] (file.elements settings EnumType.firstValues) := by
    rw [helements]
    refine Spread.node [] Prod.fst List.nodup_nil (List.forall_mem_nil _) ?_ ?_
    · simpa only [List.map_append, List.map_map, Function.comp_def] using hnames
    · simp only [List.forall_mem_append, List.forall_mem_map]
      rw [File.types_eq, List.map_append] at hnodup
      refine ⟨⟨fun enum _ => enum.1.within_elements _ _, fun m hm => ?_⟩,
        fun service _ => service.1.within_elements _ _⟩
      exact m.1.within_elements settings _ _ _
        (nodup_map_of_mem hnodup.of_append_left (List.fst_mem_of_mem_zipIdx hm))
  exact hnode.nodup

end ProtoTypings
