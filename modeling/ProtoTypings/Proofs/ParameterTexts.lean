import Mathlib.Data.List.DropRight
import Mathlib.Logic.Relation
import ProtoTypings.Proofs.RunOrder
/-!
# Parameter texts

Two parameter texts with a comma between them are one parameter text. Its faults are those of its
parts in their order, and where both texts assign a setting, under whatever keys, the second one
holds. Blanks may be added where they do not count, and so may parts that hold nothing else.

**Decisions.** What an assignment says does not depend on the settings that it changes: it is a
choice with what is chosen, or it is a fault. Reading a text is reading all its assignments, and
then making the decisions one after the other.

**Padding.** `Padded parts parts'`: blanks were added at the ends of one part or around its first
equals sign, or a part of blanks was added.

**Results.**
* `Settings.assign?_eq`, `Settings.assignAll_eq`: reading by decisions.
* `Settings.decided_makeAll_of_forall_ne`, `Settings.decided_makeAll_of_mem`: what holds after a
  run of decisions.
* `Settings.Padded.filterMap_readPart?`: padding does not change what is read.
* `Settings.parameters_compose`: all of it for texts.
-/
namespace ProtoTypings

/-! ## Blanks -/

namespace Text

def IsBlankText (s : String) : Prop := s.toList.all isBlank = true

instance (s : String) : Decidable (IsBlankText s) := inferInstanceAs (Decidable (_ = _))

theorem trimChars_eq (cs : List Char) :
    trimChars cs = (cs.dropWhile isBlank).rdropWhile isBlank := rfl

/-- Blanks at the ends are taken off with those that are there already. -/
theorem trimChars_append_blank {front back : List Char} (hfront : front.all isBlank = true)
    (hback : back.all isBlank = true) (cs : List Char) :
    trimChars (front ++ (cs ++ back)) = trimChars cs := by
  rw [trimChars_eq, trimChars_eq, List.dropWhile_append_of_pos (List.all_eq_true.1 hfront),
    List.dropWhile_append]
  cases cs.dropWhile isBlank with
  | nil => rw [List.isEmpty_nil, if_pos rfl, List.dropWhile_eq_nil_iff.2 (List.all_eq_true.1 hback)]
  | cons c rest =>
    rw [List.isEmpty_cons, if_neg Bool.false_ne_true, List.rdropWhile, List.rdropWhile,
      List.reverse_append, List.dropWhile_append_of_pos (by simpa using hback)]

theorem trimChars_dropWhile (cs : List Char) : trimChars (cs.dropWhile isBlank) = trimChars cs := by
  have hblank : (cs.takeWhile isBlank).all isBlank = true :=
    List.all_eq_true.2 fun _ hc => List.mem_takeWhile_imp hc
  have htrim := trimChars_append_blank hblank List.all_nil (cs.dropWhile isBlank)
  rw [List.append_nil, List.takeWhile_append_dropWhile] at htrim
  exact htrim.symm

theorem trimChars_rdropWhile (cs : List Char) :
    trimChars (cs.rdropWhile isBlank) = trimChars cs := by
  have hblank : (cs.rtakeWhile isBlank).all isBlank = true :=
    List.all_eq_true.2 fun _ hc => List.mem_rtakeWhile_imp hc
  have htrim := trimChars_append_blank List.all_nil hblank (cs.rdropWhile isBlank)
  rw [List.nil_append, List.rdropWhile_append_rtakeWhile] at htrim
  exact htrim.symm

theorem dropWhile_append_stop {p : Char → Bool} {stop : Char} (h : p stop = false)
    (as bs : List Char) : (as ++ stop :: bs).dropWhile p = as.dropWhile p ++ stop :: bs := by
  have hstop : ¬ p stop = true := by simp [h]
  rw [List.dropWhile_append, List.dropWhile_cons_of_neg hstop]
  cases as.dropWhile p <;> rfl

/-- What is no blank in the middle of a text keeps the two sides of it apart. -/
theorem trimChars_around {stop : Char} (h : isBlank stop = false) (as bs : List Char) :
    trimChars (as ++ stop :: bs) = as.dropWhile isBlank ++ stop :: bs.rdropWhile isBlank := by
  have hback : (as.dropWhile isBlank ++ stop :: bs).reverse =
      bs.reverse ++ stop :: (as.dropWhile isBlank).reverse := by simp
  rw [trimChars_eq, dropWhile_append_stop h, List.rdropWhile, hback, dropWhile_append_stop h]
  simp [List.rdropWhile]

theorem trim_append_blank {front back : String} (hfront : IsBlankText front)
    (hback : IsBlankText back) (s : String) : trim (front ++ s ++ back) = trim s := by
  unfold trim
  rw [String.toList_append, String.toList_append, List.append_assoc,
    trimChars_append_blank hfront hback]

theorem trim_of_blank {s : String} (h : IsBlankText s) : trim s = "" := by
  have htrim := trim_append_blank h (by decide : IsBlankText "") ""
  rwa [String.append_empty, String.append_empty] at htrim

theorem cutAtFirst?_of_toList {sep : Char} {s : String} {as bs : List Char}
    (hs : s.toList = as ++ sep :: bs) (h : sep ∉ as) :
    cutAtFirst? sep s = some (String.ofList as, String.ofList bs) := by
  have hkeep := forall_ne_of_notMem h
  rw [cutAtFirst?, hs, List.dropWhile_append_of_pos hkeep, List.takeWhile_append_of_pos hkeep]
  simp

end Text

namespace Settings

/-! ## Decisions -/

/-- A setting that parameter texts can make. -/
inductive Choice where
  | casing
  | enumStyle
  | int64AsText
  | asyncIterators
  | declareNamespace
  deriving DecidableEq, Repr

/-- The keys under which a choice is assigned. -/
def Choice.keys : Choice → List String
  | casing => ["naming", "original_names"]
  | enumStyle => ["enum_representation", "enumRepresentation", "int_enums"]
  | int64AsText => ["int64_string"]
  | asyncIterators => ["async_iterators"]
  | declareNamespace => ["declare_namespace"]

/-- A choice with what is chosen. -/
inductive Decision where
  | casing (casing : Casing)
  | enumStyle (style : EnumStyle)
  | int64AsText (asText : Bool)
  | asyncIterators (iterators : Bool)
  | declareNamespace (declared : Bool)
  deriving DecidableEq, Repr

def Decision.choice : Decision → Choice
  | casing _ => .casing
  | enumStyle _ => .enumStyle
  | int64AsText _ => .int64AsText
  | asyncIterators _ => .asyncIterators
  | declareNamespace _ => .declareNamespace

/-- How a choice is decided in given settings. -/
def decided (settings : Settings) : Choice → Decision
  | .casing => .casing settings.casing
  | .enumStyle => .enumStyle settings.enumStyle
  | .int64AsText => .int64AsText settings.int64AsText
  | .asyncIterators => .asyncIterators settings.asyncIterators
  | .declareNamespace => .declareNamespace settings.declareNamespace

def make (settings : Settings) : Decision → Settings
  | .casing casing => { settings with casing := casing }
  | .enumStyle style => { settings with enumStyle := style }
  | .int64AsText asText => { settings with int64AsText := asText }
  | .asyncIterators iterators => { settings with asyncIterators := iterators }
  | .declareNamespace declared => { settings with declareNamespace := declared }

def makeAll (settings : Settings) (decisions : List Decision) : Settings :=
  decisions.foldl make settings

theorem decided_make (settings : Settings) (decision : Decision) (choice : Choice) :
    (settings.make decision).decided choice =
      if decision.choice = choice then decision else settings.decided choice := by
  cases decision <;> cases choice <;> rfl

theorem indent_makeAll (settings : Settings) (decisions : List Decision) :
    (settings.makeAll decisions).indent = settings.indent := by
  induction decisions generalizing settings with
  | nil => rfl
  | cons decision rest ih =>
    rw [makeAll, List.foldl_cons]
    refine (ih _).trans ?_
    cases decision <;> rfl

/-- A choice about which nothing is decided stays as it was. -/
theorem decided_makeAll_of_forall_ne {decisions : List Decision} {choice : Choice}
    (h : ∀ decision ∈ decisions, decision.choice ≠ choice) (settings : Settings) :
    (settings.makeAll decisions).decided choice = settings.decided choice := by
  induction decisions generalizing settings with
  | nil => rfl
  | cons decision rest ih =>
    obtain ⟨hfirst, hrest⟩ := List.forall_mem_cons.1 h
    refine (ih hrest _).trans ?_
    rw [decided_make, if_neg hfirst]

/-- A choice about which something is decided does not depend on how it was before. -/
theorem decided_makeAll_of_mem {decisions : List Decision} {choice : Choice}
    (h : ∃ decision ∈ decisions, decision.choice = choice) (settings other : Settings) :
    (settings.makeAll decisions).decided choice = (other.makeAll decisions).decided choice := by
  induction decisions generalizing settings other with
  | nil =>
    obtain ⟨_, hmem, -⟩ := h
    cases hmem
  | cons decision rest ih =>
    by_cases hrest : ∃ later ∈ rest, later.choice = choice
    · exact ih hrest _ _
    · -- nothing is decided later, so this decision holds
      have hlater : ∀ later ∈ rest, later.choice ≠ choice :=
        fun later hmem heq => hrest ⟨later, hmem, heq⟩
      obtain ⟨found, hmem, hchoice⟩ := h
      obtain rfl | hmem := List.mem_cons.1 hmem
      · have hholds (start : Settings) :
            (start.makeAll (found :: rest)).decided choice = found := by
          refine (decided_makeAll_of_forall_ne hlater (start.make found)).trans ?_
          rw [decided_make, if_pos hchoice]
        rw [hholds settings, hholds other]
      · exact absurd hchoice (hlater found hmem)

/-! ## Reading by decisions -/

/-- The decision that an assignment stands for. -/
def Assignment.decision? (a : Assignment) : Option Decision :=
  match a.key with
  | "naming" => (casing? a.value).map .casing
  | "original_names" => (truth? a.value).map fun b => .casing (if b then .verbatim else .camel)
  | "enum_representation" | "enumRepresentation" => (enumStyle? a.value).map .enumStyle
  | "int_enums" => (truth? a.value).map fun b => .enumStyle (if b then .numeric else .text)
  | "int64_string" => (truth? a.value).map .int64AsText
  | "async_iterators" => (truth? a.value).map .asyncIterators
  | "declare_namespace" => (truth? a.value).map .declareNamespace
  | _ => none

/-- The decision that an assignment stands for, or its fault. -/
def Assignment.read (a : Assignment) : Except Fault Decision :=
  match a.decision? with
  | some decision => .ok decision
  | none => .error (.invalidParameter a.key a.value)

/-- **One assignment** makes a decision that does not depend on the settings before it. -/
theorem assign?_eq (settings : Settings) (a : Assignment) :
    settings.assign? a = a.decision?.map settings.make := by
  obtain ⟨key, value⟩ := a
  unfold assign? Assignment.decision?
  dsimp only
  -- one case for each known key, and the last one for all others
  split
  case h_9 => simp [*]
  all_goals simp [Option.map_map, Function.comp_def, make]

/-- A decision is about the choice under one of whose keys it was assigned. -/
theorem Assignment.key_mem_iff {a : Assignment} {decision : Decision}
    (h : a.decision? = some decision) (choice : Choice) :
    a.key ∈ choice.keys ↔ decision.choice = choice := by
  obtain ⟨key, value⟩ := a
  unfold decision? at h
  dsimp only at h ⊢
  split at h
  case h_9 => cases h
  all_goals
    obtain ⟨_, -, rfl⟩ := Option.map_eq_some_iff.1 h
    rw [Decision.choice]
    cases choice <;> decide

/-- **All assignments**: the decisions are made one after the other, or the first fault is met. -/
theorem assignAll_eq (settings : Settings) (as : List Assignment) :
    settings.assignAll as = (as.mapM Assignment.read).map settings.makeAll := by
  induction as generalizing settings with
  | nil => rfl
  | cons a rest ih =>
    rw [assignAll, assign?_eq, List.mapM_cons, Assignment.read]
    cases a.decision? with
    | none => rfl
    | some decision =>
      rw [Option.map_some]
      dsimp only
      rw [ih]
      cases rest.mapM Assignment.read <;> rfl

theorem ofParameter_eq_ok_iff {parameter : String} {settings : Settings} :
    ofParameter parameter = .ok settings ↔
      ∃ decisions, (assignments parameter).mapM Assignment.read = .ok decisions ∧
        makeAll {} decisions = settings := by
  rw [ofParameter, assignAll_eq]
  cases (assignments parameter).mapM Assignment.read <;> simp [Except.map]

theorem ofParameter_eq_error_iff {parameter : String} {fault : Fault} :
    ofParameter parameter = .error fault ↔
      (assignments parameter).mapM Assignment.read = .error fault := by
  rw [ofParameter, assignAll_eq]
  cases (assignments parameter).mapM Assignment.read <;> simp [Except.map]

/-- What is assigned under the keys of a choice is what is decided about it. -/
theorem exists_key_mem_iff {as : List Assignment} {decisions : List Decision}
    (h : as.mapM Assignment.read = .ok decisions) (choice : Choice) :
    (∃ a ∈ as, a.key ∈ choice.keys) ↔ ∃ decision ∈ decisions, decision.choice = choice := by
  rw [mapM_eq_ok_iff] at h
  induction h with
  | nil => simp
  | @cons a decision as decisions hread _ ih =>
    have hdecision : a.decision? = some decision := by
      unfold Assignment.read at hread
      split at hread
      · next hsome => rw [hsome, Except.ok.inj hread]
      · cases hread
    rw [List.exists_mem_cons_iff, List.exists_mem_cons_iff, Assignment.key_mem_iff hdecision, ih]

/-! ## Parts -/

/-- The assignment that a part of a parameter text makes; one of blanks makes none. -/
def readPart? (part : String) : Option Assignment :=
  if Text.trim part = "" then none else some (Assignment.ofPart (Text.trim part))

theorem assignments_eq (parameter : String) :
    assignments parameter = (Text.split ',' parameter).filterMap readPart? := by
  unfold assignments
  induction Text.split ',' parameter with
  | nil => rfl
  | cons part parts ih =>
    rw [List.map_cons, List.filterMap_cons, readPart?, ← ih]
    by_cases hblank : Text.trim part = ""
    · rw [if_pos hblank, List.filter_cons_of_neg (by simpa using hblank)]
    · rw [if_neg hblank, List.filter_cons_of_pos (by simpa using hblank), List.map_cons]

theorem assignments_append (p q : String) :
    assignments (p ++ "," ++ q) = assignments p ++ assignments q := by
  rw [assignments_eq, assignments_eq, assignments_eq, ← List.filterMap_append]
  exact congrArg _ (Text.split_append_sep ',' p q)

/-- A part with an equals sign is divided by the first one, and both sides are trimmed. -/
theorem readPart?_equals {key : String} (h : '=' ∉ key.toList) (value : String) :
    readPart? (key ++ "=" ++ value) = some ⟨Text.trim key, Text.trim value⟩ := by
  have htrim : (Text.trim (key ++ "=" ++ value)).toList =
      key.toList.dropWhile Text.isBlank ++ '=' :: value.toList.rdropWhile Text.isBlank := by
    have hchars : (key ++ "=" ++ value).toList = key.toList ++ '=' :: value.toList := by simp
    rw [Text.trim, String.toList_ofList, hchars, Text.trimChars_around (by decide)]
  have hne : Text.trim (key ++ "=" ++ value) ≠ "" := by
    intro hempty
    rw [hempty] at htrim
    simp at htrim
  have hkey : '=' ∉ key.toList.dropWhile Text.isBlank :=
    fun hmem => h ((List.dropWhile_sublist _).subset hmem)
  rw [readPart?, if_neg hne, Assignment.ofPart, Text.cutAtFirst?_of_toList htrim hkey]
  dsimp only
  rw [Text.trim, Text.trim, String.toList_ofList, String.toList_ofList, Text.trimChars_dropWhile,
    Text.trimChars_rdropWhile]
  rfl

/-! ## Padding -/

/-- One way of adding blanks to the parts of a parameter text. -/
inductive Padded : List String → List String → Prop
  /-- At the ends of a part. -/
  | ends (before after : List String) (part front back : String) :
      Text.IsBlankText front → Text.IsBlankText back →
      Padded (before ++ part :: after) (before ++ (front ++ part ++ back) :: after)
  /-- On both sides of the first equals sign of a part. -/
  | equals (before after : List String) (key value left right : String) :
      '=' ∉ key.toList → Text.IsBlankText left → Text.IsBlankText right →
      Padded (before ++ (key ++ "=" ++ value) :: after)
        (before ++ (key ++ left ++ "=" ++ right ++ value) :: after)
  /-- As a part of their own. -/
  | part (before after : List String) (blank : String) :
      Text.IsBlankText blank → Padded (before ++ after) (before ++ blank :: after)

/-- One step: the assignments stay the same. -/
theorem Padded.filterMap_readPart? {parts parts' : List String} (h : Padded parts parts') :
    parts'.filterMap readPart? = parts.filterMap readPart? := by
  cases h with
  | ends before after part front back hfront hback =>
    have hpart : readPart? (front ++ part ++ back) = readPart? part := by
      rw [readPart?, readPart?, Text.trim_append_blank hfront hback]
    simp only [List.filterMap_append, List.filterMap_cons, hpart]
  | equals before after key value left right hkey hleft hright =>
    have hempty : Text.IsBlankText "" := by decide
    have hkey' : '=' ∉ (key ++ left).toList := by
      rw [String.toList_append, List.mem_append, not_or]
      refine ⟨hkey, fun hmem => ?_⟩
      have hblank := List.all_eq_true.1 hleft '=' hmem
      revert hblank
      decide
    have htrimKey : Text.trim (key ++ left) = Text.trim key := by
      have htrim := Text.trim_append_blank hempty hleft key
      rwa [String.empty_append] at htrim
    have htrimValue : Text.trim (right ++ value) = Text.trim value := by
      have htrim := Text.trim_append_blank hright hempty value
      rwa [String.append_empty] at htrim
    have hpart : readPart? (key ++ left ++ "=" ++ right ++ value) =
        readPart? (key ++ "=" ++ value) := by
      rw [String.append_assoc, readPart?_equals hkey', readPart?_equals hkey, htrimKey, htrimValue]
    simp only [List.filterMap_append, List.filterMap_cons, hpart]
  | part before after blank hblank =>
    have hpart : readPart? blank = none := by
      rw [readPart?, if_pos (Text.trim_of_blank hblank)]
    simp only [List.filterMap_append, List.filterMap_cons, hpart]

/-- All steps: however many blanks are added, the text is read as before. -/
theorem ofParameter_eq_of_padded {p padded : String}
    (h : Relation.ReflTransGen Padded (Text.split ',' p) (Text.split ',' padded)) :
    ofParameter padded = ofParameter p := by
  have hsame {parts parts' : List String} (hsteps : Relation.ReflTransGen Padded parts parts') :
      parts'.filterMap readPart? = parts.filterMap readPart? := by
    induction hsteps with
    | refl => rfl
    | tail _ hstep ih => rw [hstep.filterMap_readPart?, ih]
  unfold ofParameter
  rw [assignments_eq, assignments_eq, hsame h]

/-! ## Two texts -/

/-- Two texts are read one after the other. -/
theorem mapM_read_append (p q : String) :
    (assignments (p ++ "," ++ q)).mapM Assignment.read = (do
      let first ← (assignments p).mapM Assignment.read
      let second ← (assignments q).mapM Assignment.read
      pure (first ++ second)) := by
  rw [assignments_append, List.mapM_append]

/-- **Parameter texts compose.** Of two texts with a comma between them, the first one that has a
fault gives its fault. If neither has one, a setting that the second text assigns, under whichever
of its keys, is as the second text alone makes it, every other one is as the first text makes it,
and the indentation is the default. Blanks at the ends of parts, blanks around their first equals
signs and parts of blanks never change the settings or the fault. -/
theorem parameters_compose (p q : String) :
    (∀ fault, ofParameter p = .error fault → ofParameter (p ++ "," ++ q) = .error fault) ∧
    (∀ first fault, ofParameter p = .ok first → ofParameter q = .error fault →
      ofParameter (p ++ "," ++ q) = .error fault) ∧
    (∀ first second, ofParameter p = .ok first → ofParameter q = .ok second →
      ∃ both, ofParameter (p ++ "," ++ q) = .ok both ∧
        (∀ choice, (∃ a ∈ assignments q, a.key ∈ choice.keys) →
          both.decided choice = second.decided choice) ∧
        (∀ choice, (∀ a ∈ assignments q, a.key ∉ choice.keys) →
          both.decided choice = first.decided choice) ∧
        both.indent = ({} : Settings).indent) ∧
    ∀ padded, Relation.ReflTransGen Padded (Text.split ',' p) (Text.split ',' padded) →
      ofParameter padded = ofParameter p := by
  refine ⟨?_, ?_, ?_, fun padded hpadded => ofParameter_eq_of_padded hpadded⟩
  · intro fault hp
    rw [ofParameter_eq_error_iff] at hp ⊢
    rw [mapM_read_append, hp]
    rfl
  · intro first fault hp hq
    obtain ⟨before, hbefore, -⟩ := ofParameter_eq_ok_iff.1 hp
    rw [ofParameter_eq_error_iff] at hq ⊢
    rw [mapM_read_append, hbefore, hq]
    rfl
  · intro first second hp hq
    obtain ⟨before, hbefore, rfl⟩ := ofParameter_eq_ok_iff.1 hp
    obtain ⟨after, hafter, rfl⟩ := ofParameter_eq_ok_iff.1 hq
    have hboth : (assignments (p ++ "," ++ q)).mapM Assignment.read = .ok (before ++ after) := by
      rw [mapM_read_append, hbefore, hafter]
      rfl
    have hmake : makeAll {} (before ++ after) = (makeAll {} before).makeAll after :=
      List.foldl_append
    refine ⟨_, ofParameter_eq_ok_iff.2 ⟨_, hboth, rfl⟩, fun choice hassigned => ?_,
      fun choice hnone => ?_, indent_makeAll {} _⟩
    · rw [hmake]
      exact decided_makeAll_of_mem ((exists_key_mem_iff hafter choice).1 hassigned) _ _
    · rw [hmake]
      refine decided_makeAll_of_forall_ne (fun decision hmem hchoice => ?_) _
      obtain ⟨a, ha, hkey⟩ := (exists_key_mem_iff hafter choice).2 ⟨decision, hmem, hchoice⟩
      exact hnone a ha hkey

/-- The second text takes back a choice of the first one under another key. Blanks around an equals
sign and an empty part make no difference. -/
theorem parameters_compose_keys :
    (∃ both,
      ofParameter ("naming=verbatim,int64_string" ++ "," ++ "original_names=no") = .ok both ∧
        both.casing = .camel ∧ both.int64AsText = true) ∧
    ofParameter "naming\u00a0= verbatim,,int64_string" =
      ofParameter "naming=verbatim,int64_string" := by
  have hfirst : ofParameter "naming=verbatim,int64_string" =
      .ok { casing := .verbatim, int64AsText := true } := by decide
  have hsecond : ofParameter "original_names=no" = .ok {} := by decide
  obtain ⟨-, -, hboth, hpadded⟩ :=
    parameters_compose "naming=verbatim,int64_string" "original_names=no"
  obtain ⟨both, hread, hassigned, hother, -⟩ := hboth _ _ hfirst hsecond
  have hcasing := hassigned .casing (by decide)
  have hint64 := hother .int64AsText (by decide)
  refine ⟨⟨both, hread, Decision.casing.inj hcasing, Decision.int64AsText.inj hint64⟩,
    hpadded _ ?_⟩
  have hequals : Padded (Text.split ',' "naming=verbatim,int64_string")
      (Text.split ',' "naming\u00a0= verbatim,int64_string") :=
    .equals [] ["int64_string"] "naming" "verbatim" "\u00a0" " " (by decide) (by decide) (by decide)
  have hempty : Padded (Text.split ',' "naming\u00a0= verbatim,int64_string")
      (Text.split ',' "naming\u00a0= verbatim,,int64_string") :=
    .part ["naming\u00a0= verbatim"] ["int64_string"] "" (by decide)
  exact (Relation.ReflTransGen.single hequals).tail hempty

end Settings
end ProtoTypings
