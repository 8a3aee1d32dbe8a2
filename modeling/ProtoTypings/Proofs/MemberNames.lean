import Mathlib.Logic.Relation
import ProtoTypings.Proofs.OutlineMirror
/-!
# Names of members

Properties and operations are named after fields and methods. As declared, different
identifiers give different names. In camel case some of them meet, and which ones can be said
by three changes of an identifier that its camel case does not show.

**Unseen changes.** The first character may change its case; an underscore may be left out if
the character after it becomes upper case; and an underscore at the end may be left out. All
other changes are put together from these, such as doubling an underscore or putting one in
front.

**Results.**
* `Casing.lowerCamel_toList`: camel case in one pass over the characters.
* `Casing.merged_iff`: two identifiers have the same camel case just when unseen changes lead
  from one to the other.
* `Casing.lowerCamel_eq_empty_iff`: nothing is left of underscores alone.
* `members_usable_iff`: when the members of an interface have usable names.
* `members_meet`: they do not always.
-/
namespace ProtoTypings

/-- Whether a text is an ASCII letter or an underscore, then letters, digits and underscores. -/
def isIdentifier (s : String) : Bool :=
  match s.toList with
  | [] => false
  | c :: cs => (c.isAlpha || c = '_') && cs.all fun d => d.isAlphanum || d = '_'

theorem ne_empty_of_isIdentifier {s : String} (h : isIdentifier s = true) : s ≠ "" := by
  rintro rfl
  cases h

/-- Names under which the members of one interface can be told apart. -/
def UsableNames (names : List String) : Prop :=
  (∀ name ∈ names, name ≠ "") ∧ names.Nodup

instance (names : List String) : Decidable (UsableNames names) :=
  inferInstanceAs (Decidable (_ ∧ _))

namespace Casing

/-- One change of an identifier that its camel case does not show. -/
inductive Unseen : List Char → List Char → Prop
  | first (c : Char) (rest : List Char) : Unseen (c :: rest) (c.toLower :: rest)
  | word (start : List Char) (c : Char) (rest : List Char) :
      Unseen (start ++ '_' :: c :: rest) (start ++ c.toUpper :: rest)
  | last (start : List Char) : Unseen (start ++ ['_']) start

/-- Changes that camel case does not show lead from one identifier to the other. -/
def Merged (a b : String) : Prop := Relation.EqvGen Unseen a.toList b.toList

/-- Identifiers that stay apart and do not vanish. -/
def KeepsApart (identifiers : List String) : Casing → Prop
  | .verbatim => True
  | .camel => (∀ s ∈ identifiers, ∃ c ∈ s.toList, c ≠ '_') ∧
      identifiers.Pairwise fun a b => ¬ Merged a b

/-! ## Changes of case -/

/-- In upper case, a letter moves down by 32 code points. -/
theorem toNat_toUpper (c : Char) :
    c.toUpper.toNat = if 97 ≤ c.toNat ∧ c.toNat ≤ 122 then c.toNat - 32 else c.toNat := by
  have hrange : 'a'.val ≤ c.val ∧ c.val ≤ 'z'.val ↔ 97 ≤ c.toNat ∧ c.toNat ≤ 122 := Iff.rfl
  unfold Char.toUpper
  split
  · next h =>
    have hcode : (c.val + ('A'.val - 'a'.val)).toNat = (c.toNat + (2 ^ 32 - 32)) % 2 ^ 32 :=
      UInt32.toNat_add _ _
    rw [if_pos (hrange.1 h)]
    exact hcode.trans (by have := hrange.1 h; omega)
  · next h => rw [if_neg (mt hrange.2 h)]

theorem toNat_toLower (c : Char) :
    c.toLower.toNat = if 65 ≤ c.toNat ∧ c.toNat ≤ 90 then c.toNat + 32 else c.toNat := by
  have hrange : c.val ≥ 'A'.val ∧ c.val ≤ 'Z'.val ↔ 65 ≤ c.toNat ∧ c.toNat ≤ 90 := Iff.rfl
  unfold Char.toLower
  split
  · next h =>
    have hcode : (c.val + ('a'.val - 'A'.val)).toNat = (c.toNat + 32) % 2 ^ 32 :=
      UInt32.toNat_add _ _
    rw [if_pos (hrange.1 h)]
    exact hcode.trans (by have := hrange.1 h; omega)
  · next h => rw [if_neg (mt hrange.2 h)]

@[simp] theorem toUpper_toUpper (c : Char) : c.toUpper.toUpper = c.toUpper := by
  rw [← Char.toNat_inj]
  simp only [toNat_toUpper]
  split_ifs <;> omega

@[simp] theorem toLower_toUpper (c : Char) : c.toUpper.toLower = c.toLower := by
  rw [← Char.toNat_inj]
  simp only [toNat_toUpper, toNat_toLower]
  split_ifs <;> omega

@[simp] theorem toLower_toLower (c : Char) : c.toLower.toLower = c.toLower := by
  rw [← Char.toNat_inj]
  simp only [toNat_toLower]
  split_ifs <;> omega

theorem toUpper_eq_underscore_iff {c : Char} : c.toUpper = '_' ↔ c = '_' := by
  rw [← Char.toNat_inj, ← Char.toNat_inj, toNat_toUpper]
  show _ = 95 ↔ _ = 95
  split <;> omega

theorem toLower_eq_underscore_iff {c : Char} : c.toLower = '_' ↔ c = '_' := by
  rw [← Char.toNat_inj, ← Char.toNat_inj, toNat_toLower]
  show _ = 95 ↔ _ = 95
  split <;> omega

/-! ## Camel case in one pass -/

/-- The characters of an identifier without its underscores; what follows an underscore is in
upper case. The flag says whether an underscore stands in front. -/
def scan : Bool → List Char → List Char
  | _, [] => []
  | behind, c :: cs =>
    if c = '_' then scan true cs else (if behind then c.toUpper else c) :: scan false cs

theorem scan_underscore (behind : Bool) (cs : List Char) :
    scan behind ('_' :: cs) = scan true cs := by
  rw [scan, if_pos rfl]

theorem scan_other (behind : Bool) {c : Char} (hc : c ≠ '_') (cs : List Char) :
    scan behind (c :: cs) = (if behind then c.toUpper else c) :: scan false cs := by
  rw [scan, if_neg hc]

/-- The pieces between underscores, as the pass has them: the first piece goes on, and every
later one begins in upper case. -/
theorem scan_splitChars (cs : List Char) :
    scan true cs = ((Text.splitChars '_' cs).filter (· ≠ [])).flatMap (changeFirst Char.toUpper) ∧
      ∃ piece pieces, Text.splitChars '_' cs = piece :: pieces ∧
        scan false cs = piece ++ (pieces.filter (· ≠ [])).flatMap (changeFirst Char.toUpper) := by
  induction cs with
  | nil => exact ⟨rfl, [], [], rfl, rfl⟩
  | cons c cs ih =>
    obtain ⟨hbehind, piece, pieces, hsplit, hwithin⟩ := ih
    by_cases hc : c = '_'
    · subst hc
      have hpieces : Text.splitChars '_' ('_' :: cs) = [] :: piece :: pieces := by
        rw [Text.splitChars, hsplit]
        rfl
      rw [scan_underscore, scan_underscore, hpieces, hbehind, hsplit]
      exact ⟨rfl, [], piece :: pieces, rfl, rfl⟩
    · have hpieces : Text.splitChars '_' (c :: cs) = (c :: piece) :: pieces := by
        rw [Text.splitChars, hsplit]
        exact if_neg hc
      rw [scan_other true hc, scan_other false hc, hpieces, hwithin]
      refine ⟨?_, c :: piece, pieces, rfl, rfl⟩
      rw [List.filter_cons_of_pos (by simp)]
      rfl

theorem changeFirst_lower_scan (cs : List Char) (behind : Bool) :
    changeFirst Char.toLower (scan behind cs) = changeFirst Char.toLower (scan true cs) := by
  cases cs with
  | nil => rfl
  | cons c cs =>
    by_cases hc : c = '_'
    · subst hc
      rw [scan_underscore, scan_underscore]
    · rw [scan_other behind hc, scan_other true hc]
      cases behind <;> simp [changeFirst]

/-- **Camel case** is one pass with the first character in lower case. -/
theorem lowerCamel_toList (s : String) :
    (lowerCamel s).toList = changeFirst Char.toLower (scan true s.toList) := by
  rw [lowerCamel, String.toList_ofList, (scan_splitChars s.toList).1]
  cases hsegments : (Text.splitChars '_' s.toList).filter (· ≠ []) with
  | nil => rfl
  | cons first others =>
    have hfirst : first ≠ [] := by
      have hmem : first ∈ (Text.splitChars '_' s.toList).filter (· ≠ []) := by
        rw [hsegments]
        exact List.mem_cons_self
      simpa using (List.mem_filter.1 hmem).2
    obtain ⟨c, rest, rfl⟩ := List.exists_cons_of_ne_nil hfirst
    simp [joinSegments, changeFirst]

/-- Nothing is left of underscores alone, and of nothing else. -/
theorem lowerCamel_eq_empty_iff {s : String} : lowerCamel s = "" ↔ ∀ c ∈ s.toList, c = '_' := by
  have hscan (cs : List Char) (behind : Bool) : scan behind cs = [] ↔ ∀ c ∈ cs, c = '_' := by
    induction cs generalizing behind with
    | nil => simp [scan]
    | cons c cs ih =>
      by_cases hc : c = '_'
      · rw [hc, scan_underscore, ih]
        simp
      · rw [scan_other behind hc]
        simp [hc]
  have hfirst (cs : List Char) : changeFirst Char.toLower cs = [] ↔ cs = [] := by
    cases cs <;> simp [changeFirst]
  rw [← String.toList_inj, lowerCamel_toList, String.toList_empty, hfirst, hscan]

/-! ## Unseen changes -/

/-- A pass does not notice underscores that are left out for upper case. -/
theorem scan_word (start : List Char) (c : Char) (rest : List Char) (behind : Bool) :
    scan behind (start ++ '_' :: c :: rest) = scan behind (start ++ c.toUpper :: rest) := by
  induction start generalizing behind with
  | nil =>
    rw [List.nil_append, List.nil_append, scan_underscore]
    by_cases hc : c = '_'
    · rw [hc, toUpper_eq_underscore_iff.2 rfl, scan_underscore, scan_underscore]
    · rw [scan_other true hc, scan_other behind (mt toUpper_eq_underscore_iff.1 hc)]
      cases behind <;> simp
  | cons d start ih =>
    rw [List.cons_append, List.cons_append, scan, scan, ih, ih]

theorem scan_last (start : List Char) (behind : Bool) :
    scan behind (start ++ ['_']) = scan behind start := by
  induction start generalizing behind with
  | nil => rfl
  | cons d start ih => rw [List.cons_append, scan, scan, ih, ih]

/-- One step: an unseen change is not seen. -/
theorem Unseen.changeFirst_scan {a b : List Char} (h : Unseen a b) :
    changeFirst Char.toLower (scan true a) = changeFirst Char.toLower (scan true b) := by
  cases h with
  | first c rest =>
    by_cases hc : c = '_'
    · rw [hc, toLower_eq_underscore_iff.2 rfl]
    · rw [scan_other true hc, scan_other true (mt toLower_eq_underscore_iff.1 hc)]
      simp [changeFirst]
  | word start c rest => rw [scan_word]
  | last start => rw [scan_last]

/-- All steps: changes lead from any identifier to what the pass makes of it. -/
theorem unseen_scan (cs : List Char) :
    ∀ start, Relation.ReflTransGen Unseen (start ++ cs) (start ++ scan false cs) ∧
      Relation.ReflTransGen Unseen (start ++ '_' :: cs) (start ++ scan true cs) := by
  induction cs with
  | nil =>
    intro start
    refine ⟨.refl, .single ?_⟩
    rw [scan, List.append_nil]
    exact .last start
  | cons c cs ih =>
    intro start
    -- with the character in its place, the others are changed behind it
    have hkeep (d : Char) :
        Relation.ReflTransGen Unseen (start ++ d :: cs) (start ++ d :: scan false cs) := by
      have hrest := (ih (start ++ [d])).1
      simpa using hrest
    have hword := Relation.ReflTransGen.single (Unseen.word start c cs)
    by_cases hc : c = '_'
    · subst hc
      rw [scan_underscore, scan_underscore]
      exact ⟨(ih start).2, hword.trans (ih start).2⟩
    · rw [scan_other false hc, scan_other true hc]
      exact ⟨hkeep c, hword.trans (hkeep c.toUpper)⟩

theorem unseen_lowerCamel (s : String) :
    Relation.ReflTransGen Unseen s.toList (lowerCamel s).toList := by
  have hscan : Relation.ReflTransGen Unseen s.toList (scan false s.toList) :=
    (unseen_scan s.toList []).1
  rw [lowerCamel_toList, ← changeFirst_lower_scan s.toList false]
  refine hscan.trans ?_
  cases scan false s.toList with
  | nil => exact .refl
  | cons c rest => exact .single (.first c rest)

/-- **Identifiers that meet.** Two identifiers have the same camel case just when unseen changes
lead from one to the other. -/
theorem merged_iff {a b : String} : Merged a b ↔ lowerCamel a = lowerCamel b := by
  constructor
  · intro h
    have hsame : ∀ x y, Relation.EqvGen Unseen x y →
        changeFirst Char.toLower (scan true x) = changeFirst Char.toLower (scan true y) := by
      intro x y hxy
      induction hxy with
      | rel x y hstep => exact hstep.changeFirst_scan
      | refl x => rfl
      | symm x y _ ih => exact ih.symm
      | trans x y z _ _ ih ih' => exact ih.trans ih'
    rw [← String.toList_inj, lowerCamel_toList, lowerCamel_toList]
    exact hsame _ _ h
  · intro h
    have ha := Relation.EqvGen.reflTransGen_le_eqvGen _ _ _ (unseen_lowerCamel a)
    have hb := Relation.EqvGen.reflTransGen_le_eqvGen _ _ _ (unseen_lowerCamel b)
    rw [← h] at hb
    exact ha.trans _ _ _ (hb.symm _ _)

instance (a b : String) : Decidable (Merged a b) :=
  decidable_of_iff (lowerCamel a = lowerCamel b) merged_iff.symm

instance (identifiers : List String) (casing : Casing) :
    Decidable (casing.KeepsApart identifiers) :=
  match casing with
  | .verbatim => inferInstanceAs (Decidable True)
  | .camel =>
    -- through the characters of the identifier, and not through all characters
    letI (s : String) : Decidable (∃ c ∈ s.toList, c ≠ '_') := List.decidableBEx _ _
    inferInstanceAs (Decidable (_ ∧ _))

/-- Names made of different identifiers are usable just when the identifiers stay apart. -/
theorem usableNames_map_apply_iff {identifiers : List String}
    (h : ∀ s ∈ identifiers, isIdentifier s = true) (hnodup : identifiers.Nodup) (casing : Casing) :
    UsableNames (identifiers.map casing.apply) ↔ casing.KeepsApart identifiers := by
  cases casing with
  | verbatim =>
    have hself : identifiers.map (apply .verbatim) = identifiers := List.map_id identifiers
    rw [hself, KeepsApart, iff_true]
    exact ⟨fun s hs => ne_empty_of_isIdentifier (h s hs), hnodup⟩
  | camel =>
    have hempty (s : String) : lowerCamel s ≠ "" ↔ ∃ c ∈ s.toList, c ≠ '_' := by
      rw [Ne, lowerCamel_eq_empty_iff]
      simp
    have hnames : (∀ name ∈ identifiers.map lowerCamel, name ≠ "") ↔
        ∀ s ∈ identifiers, ∃ c ∈ s.toList, c ≠ '_' := by
      simp only [List.forall_mem_map, hempty]
    have happly : identifiers.map (apply .camel) = identifiers.map lowerCamel := rfl
    rw [happly, UsableNames, hnames, KeepsApart, List.Nodup, List.pairwise_map]
    simp only [merged_iff, Ne]

end Casing

/-! ## Members of interfaces -/

section members
variable {context : TypingContext} {path : List Int32} {r r' : Resolver}

theorem Message.names_of_yields {m : Message} {outer : String} {typing : MessageTyping}
    (h : (m.typing context outer path).Yields r typing r') :
    typing.properties.map (·.name) = (m.fields.map (·.name)).map context.settings.casing.apply := by
  obtain ⟨properties, -, hproperties, -, rfl⟩ := Message.yielded_typing ⟨r, r', rfl, h, .refl r'⟩
  have hnames : List.Forall₂ (fun (field : Field) (result : Property × Option String) =>
      context.settings.casing.apply field.name = result.1.name) m.fields properties :=
    forall₂_zipIdx_iff.1 (hproperties.imp fun _ _ hfield => (Field.yielded_property hfield).1.symm)
  rw [List.map_map, List.map_map]
  exact (map_eq_map_of_forall₂ hnames fun _ _ hname => hname).symm

theorem Service.names_of_yields {service : Service} {package : String} {typing : ServiceTyping}
    (h : (service.typing context package path).Yields r typing r') :
    typing.operations.map (·.name) =
      (service.methods.map (·.name)).map context.settings.casing.apply := by
  obtain ⟨-, hoperations⟩ := Service.yielded_typing ⟨r, r', rfl, h, .refl r'⟩
  have hnames : List.Forall₂ (fun (method : Method) (operation : Operation) =>
      context.settings.casing.apply method.name = operation.name) service.methods
      typing.operations :=
    forall₂_zipIdx_iff.1
      (hoperations.imp fun _ _ hmethod => (Method.yielded_operation hmethod).1.symm)
  rw [List.map_map]
  exact (map_eq_map_of_forall₂ hnames fun _ _ hname => hname).symm

end members

/-- **Usable members.** Consider a message or a service that was typed and whose fields or methods
have different identifiers for names. The members of its interface have names, and different
ones, just when the casing keeps the identifiers apart: always if they stay as declared, and in
camel case if none consists of underscores and no unseen changes lead from one to another. -/
theorem members_usable_iff {context : TypingContext} {path : List Int32} {r r' : Resolver} :
    (∀ (m : Message) (outer : String) (typing : MessageTyping),
      (m.typing context outer path).Yields r typing r' →
      (∀ field ∈ m.fields, isIdentifier field.name = true) → (m.fields.map (·.name)).Nodup →
      (UsableNames (typing.properties.map (·.name)) ↔
        context.settings.casing.KeepsApart (m.fields.map (·.name)))) ∧
    ∀ (service : Service) (package : String) (typing : ServiceTyping),
      (service.typing context package path).Yields r typing r' →
      (∀ method ∈ service.methods, isIdentifier method.name = true) →
      (service.methods.map (·.name)).Nodup →
      (UsableNames (typing.operations.map (·.name)) ↔
        context.settings.casing.KeepsApart (service.methods.map (·.name))) := by
  constructor
  · intro m outer typing h hidentifiers hnodup
    rw [Message.names_of_yields h]
    exact Casing.usableNames_map_apply_iff (List.forall_mem_map.2 hidentifiers) hnodup _
  · intro service package typing h hidentifiers hnodup
    rw [Service.names_of_yields h]
    exact Casing.usableNames_map_apply_iff (List.forall_mem_map.2 hidentifiers) hnodup _

namespace Sample

/-- A message whose identifiers stay apart, though they differ only in underscores and case. -/
def gauge : Message where
  name := "Gauge"
  fields :=
    [{ name := "unit_id", number := some 1, typeCode := some 9 },
     { name := "unit_ID", number := some 2, typeCode := some 9 },
     { name := "_unitid", number := some 3, typeCode := some 9 }]

/-- A message with two fields that meet in camel case and one that vanishes. -/
def blurred : Message where
  name := "Blurred"
  fields :=
    [{ name := "foo_bar", number := some 1, typeCode := some 9 },
     { name := "fooBar", number := some 2, typeCode := some 9 },
     { name := "_", number := some 3, typeCode := some 9 }]

def reader : Service where
  name := "Reader"
  methods :=
    [{ name := "Get", input := "Gauge", output := "Gauge" },
     { name := "get_all", input := "Gauge", output := ".meter.Gauge" }]

def meter : File where
  name := some "meter.proto"
  package := some "meter"
  messages := [gauge, blurred]
  services := [reader]

def meterCatalog : Catalog := ⟨[meter], meter.types⟩

theorem exists_gaugeTyping :
    ∃ typing r', (gauge.typing ⟨{}, "meter.proto", []⟩ "meter" []).Yields
      (Resolver.ofFile meterCatalog "meter.proto") typing r' := ⟨_, _, rfl⟩

theorem exists_readerTyping :
    ∃ typing r', (reader.typing ⟨{}, "meter.proto", []⟩ "meter" []).Yields
      (Resolver.ofFile meterCatalog "meter.proto") typing r' := ⟨_, _, rfl⟩

end Sample

theorem members_usable_iff_meter :
    (∃ typing r', (Sample.gauge.typing ⟨{}, "meter.proto", []⟩ "meter" []).Yields
        (Resolver.ofFile Sample.meterCatalog "meter.proto") typing r' ∧
      UsableNames (typing.properties.map (·.name))) ∧
    ∃ typing r', (Sample.reader.typing ⟨{}, "meter.proto", []⟩ "meter" []).Yields
        (Resolver.ofFile Sample.meterCatalog "meter.proto") typing r' ∧
      UsableNames (typing.operations.map (·.name)) := by
  constructor
  · obtain ⟨typing, r', h⟩ := Sample.exists_gaugeTyping
    have hapart : Casing.camel.KeepsApart (Sample.gauge.fields.map (·.name)) := by decide
    exact ⟨typing, r', h, (members_usable_iff.1 _ _ _ h (by decide) (by decide)).2 hapart⟩
  · obtain ⟨typing, r', h⟩ := Sample.exists_readerTyping
    have hapart : Casing.camel.KeepsApart (Sample.reader.methods.map (·.name)) := by decide
    exact ⟨typing, r', h, (members_usable_iff.2 _ _ _ h (by decide) (by decide)).2 hapart⟩

/-- Different identifiers can meet, and an identifier can vanish. -/
theorem members_meet :
    (∀ field ∈ Sample.blurred.fields, isIdentifier field.name = true) ∧
      (Sample.blurred.fields.map (·.name)).Nodup ∧
      ∃ typing r', (Sample.blurred.typing ⟨{}, "meter.proto", []⟩ "meter" []).Yields
          (Resolver.ofFile Sample.meterCatalog "meter.proto") typing r' ∧
        typing.properties.map (·.name) = ["fooBar", "fooBar", ""] :=
  ⟨by decide, by decide, _, _, rfl, rfl⟩

end ProtoTypings
