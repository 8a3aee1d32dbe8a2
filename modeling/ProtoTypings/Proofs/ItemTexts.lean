import ProtoTypings.Proofs.Counterparts
import ProtoTypings.Proofs.MemberText
/-!
# What the texts of items say

An item without comments is printed as an opening line, the lines of what is inside
and a closing brace; a blank line follows the interface of a message and a scope.
The interface of a message and that of a service are opened alike, so without
members the blank line alone tells them apart.

* `Item.Readable`: the items that can be read back.
* `Item.allTexts`: the texts of their lines, without indentation.
* `Item.printed`: what is printed of an item.
* `Item.allTexts_inj`: a list of items is known from its texts, up to what is not
  printed.
-/
namespace ProtoTypings

/-! ## Texts of members -/

/-- A text that begins with a name. -/
def Text.BeginsWord (t : String) : Prop := ∃ name rest, IsWord name ∧ t = name ++ rest

namespace Text.BeginsWord

theorem head {t : String} (h : BeginsWord t) : ∃ c, t.toList.head? = some c ∧ isWordChar c := by
  obtain ⟨name, rest, ⟨hne, hword⟩, rfl⟩ := h
  have hchars : name.toList ≠ [] := by simpa using hne
  obtain ⟨c, cs, hname⟩ := List.exists_cons_of_ne_nil hchars
  refine ⟨c, ?_, hword c (by simp [hname])⟩
  rw [head?_append hne, hname]
  rfl

theorem ne {t s : String} (h : BeginsWord t) (hs : Stops isWordChar s.toList) : t ≠ s := by
  rintro rfl
  obtain ⟨c, hhead, hc⟩ := h.head
  rw [hs c hhead] at hc
  cases hc

end Text.BeginsWord

theorem Property.Readable.beginsWord {p : Property} (h : p.Readable) : Text.BeginsWord p.text :=
  ⟨p.name, _, h.name, by rw [Property.text, String.append_assoc, String.append_assoc]⟩

theorem Operation.Readable.beginsWord {settings : Settings} {o : Operation}
    (h : o.Readable settings) : Text.BeginsWord o.text :=
  ⟨o.name, _, h.name, by rw [Operation.text, String.append_assoc, String.append_assoc]⟩

theorem Enumerator.Readable.beginsWord {e : Enumerator} (h : e.Readable) (style : EnumStyle) :
    Text.BeginsWord (e.text style) := by
  cases style <;>
    exact ⟨e.name, _, h.name, by rw [Enumerator.text, String.append_assoc, String.append_assoc]⟩

/-- Members end at the first closing brace. -/
theorem members_inj {members members' rest rest' : List String}
    (hmembers : ∀ t ∈ members, Text.BeginsWord t) (hmembers' : ∀ t ∈ members', Text.BeginsWord t)
    (h : members ++ "\x7d" :: rest = members' ++ "\x7d" :: rest') :
    members = members' ∧ rest = rest' := by
  have hbrace {texts : List String} (htexts : ∀ t ∈ texts, Text.BeginsWord t) :
      ∀ t ∈ texts, (t != "\x7d") = true :=
    fun t ht => bne_iff_ne.2 ((htexts t ht).ne (by decide))
  have hstops (texts : List String) : Stops (· != "\x7d") ("\x7d" :: texts) := by simp [Stops]
  obtain ⟨hsame, hrest⟩ :=
    append_inj_of_stops (hbrace hmembers) (hbrace hmembers') (hstops rest) (hstops rest') h
  exact ⟨hsame, (List.cons.inj hrest).2⟩

/-- What is made of elements depends on their texts only. -/
theorem map_eq_map_of_texts {α β γ : Type} {text : α → β} {f : α → γ} :
    ∀ {xs ys : List α}, (∀ x ∈ xs, ∀ y ∈ ys, text x = text y → f x = f y) →
      xs.map text = ys.map text → xs.map f = ys.map f
  | [], [], _, _ => rfl
  | x :: xs, y :: ys, hf, h => by
    obtain ⟨hxy, hrest⟩ := List.cons.inj h
    have hsame := hf x List.mem_cons_self y List.mem_cons_self hxy
    have htail := map_eq_map_of_texts (fun x' hx' y' hy' =>
      hf x' (List.mem_cons_of_mem _ hx') y' (List.mem_cons_of_mem _ hy')) hrest
    rw [List.map_cons, List.map_cons, hsame, htail]

/-- Members that begin with their names are known from the texts before the closing
brace, as far as each is known from its text. -/
theorem members_printed {α γ : Type} {text : α → String} {f : α → γ} {xs ys : List α}
    {rest rest' : List String} (hxs : ∀ x ∈ xs, Text.BeginsWord (text x))
    (hys : ∀ y ∈ ys, Text.BeginsWord (text y))
    (hf : ∀ x ∈ xs, ∀ y ∈ ys, text x = text y → f x = f y)
    (h : xs.map text ++ "\x7d" :: rest = ys.map text ++ "\x7d" :: rest') :
    xs.map f = ys.map f ∧ rest = rest' := by
  obtain ⟨hmembers, hrest⟩ :=
    members_inj (List.forall_mem_map.2 hxs) (List.forall_mem_map.2 hys) h
  exact ⟨map_eq_map_of_texts hf hmembers, hrest⟩

/-! ## Items -/

namespace Item

mutual

/-- An item without comments, at every depth, whose names and paths can be read. -/
def Readable (settings : Settings) : Item → Prop
  | interface name leading properties =>
    Text.IsWord name ∧ leading = none ∧ ∀ p ∈ properties, p.Readable
  | enumeration typing =>
    Text.IsWord typing.name ∧ typing.leading = none ∧ ∀ e ∈ typing.enumerators, e.Readable
  | service typing =>
    Text.IsWord typing.name ∧ typing.leading = none ∧ ∀ o ∈ typing.operations, o.Readable settings
  | scope name items => Text.IsWord name ∧ AllReadable settings items

def AllReadable (settings : Settings) : List Item → Prop
  | [] => True
  | item :: rest => Readable settings item ∧ AllReadable settings rest

end

mutual

/-- What is printed of an item. Full names are not, and numbers of enumerators only
where they are values. -/
def printed (style : EnumStyle) : Item → Item
  | interface name leading properties => interface name leading properties
  | enumeration typing => enumeration
      { typing with fullName := "", enumerators := typing.enumerators.map (.printed style) }
  | service typing => service { typing with fullName := "" }
  | scope name items => scope name (allPrinted style items)

def allPrinted (style : EnumStyle) : List Item → List Item
  | [] => []
  | item :: rest => printed style item :: allPrinted style rest

end

/-- The word that says what an item is. -/
def kindWord : Item → String
  | interface .. | service _ => " interface "
  | enumeration _ => " enum "
  | scope .. => " namespace "

def opening (modifier : Modifier) (item : Item) : String :=
  modifier.keyword ++ item.kindWord ++ item.name ++ " \x7b"

mutual

def tailTexts (settings : Settings) : Item → List String
  | interface _ _ properties => properties.map Property.text ++ ["\x7d", ""]
  | enumeration typing => typing.enumerators.map (Enumerator.text settings.enumStyle) ++ ["\x7d"]
  | service typing => typing.operations.map Operation.text ++ ["\x7d"]
  | scope _ items => allTexts settings .exported items ++ ["\x7d", ""]

def allTexts (settings : Settings) (modifier : Modifier) : List Item → List String
  | [] => []
  | item :: rest =>
    opening modifier item :: tailTexts settings item ++ allTexts settings modifier rest

end

variable {settings : Settings}

theorem allReadable_iff {items : List Item} :
    AllReadable settings items ↔ ∀ item ∈ items, item.Readable settings := by
  induction items with
  | nil => simp [AllReadable]
  | cons item rest ih => rw [AllReadable, ih, List.forall_mem_cons]

theorem opening_inj {modifier : Modifier} {item item' : Item}
    (h : item.opening modifier = item'.opening modifier) :
    item.kindWord = item'.kindWord ∧ item.name = item'.name := by
  simp only [opening, String.append_assoc, String.append_right_inj] at h
  cases item <;> cases item' <;> simp_all [kindWord, ← String.toList_inj]

/-- The line after the first is not blank. -/
theorem head?_tailTexts {item : Item} (h : item.Readable settings) :
    ∃ first, (item.tailTexts settings).head? = some first ∧ first ≠ "" := by
  have hmembers {members rest : List String} (hwords : ∀ t ∈ members, Text.BeginsWord t) :
      ∃ first, (members ++ "\x7d" :: rest).head? = some first ∧ first ≠ "" := by
    cases members with
    | nil => exact ⟨"\x7d", rfl, by decide⟩
    | cons t members => exact ⟨t, rfl, (hwords t List.mem_cons_self).ne (by decide)⟩
  cases item with
  | interface name leading properties =>
    exact hmembers (List.forall_mem_map.2 fun p hp => (h.2.2 p hp).beginsWord)
  | enumeration typing =>
    exact hmembers (List.forall_mem_map.2 fun e he => (h.2.2 e he).beginsWord _)
  | service typing =>
    exact hmembers (List.forall_mem_map.2 fun o ho => (h.2.2 o ho).beginsWord)
  | scope name items =>
    cases items with
    | nil => exact ⟨"\x7d", rfl, by decide⟩
    | cons item rest => exact ⟨opening .exported item, rfl, by simp [opening]⟩

/-- What may follow a list of items: nothing, or the closing brace around it. -/
def EndsItems (rest : List String) : Prop := ∀ t ∈ rest.head?, t = "\x7d"

theorem opening_ne_brace (modifier : Modifier) (item : Item) : opening modifier item ≠ "\x7d" := by
  cases modifier <;> simp [opening, Modifier.keyword, ← String.toList_inj]

/-- What follows an item in a list is no blank line. -/
theorem head?_allTexts_ne {modifier : Modifier} {items : List Item} {rest : List String}
    (hrest : EndsItems rest) : (allTexts settings modifier items ++ rest).head? ≠ some "" := by
  cases items with
  | nil =>
    intro h
    exact absurd (hrest "" h) (by decide)
  | cons item items => simp [allTexts, opening]

section list
variable {modifier : Modifier} {items items' : List Item} {rest rest' : List String}

/-- An item is known from the texts after its opening, if so much is known already
as the opening says. What follows is no blank line, since one may belong to the
item. -/
def KnownFromTail (settings : Settings) (item : Item) : Prop :=
  ∀ (item' : Item) (rest rest' : List String),
    item.Readable settings → item'.Readable settings →
    item.kindWord = item'.kindWord → item.name = item'.name →
    rest.head? ≠ some "" → rest'.head? ≠ some "" →
    item.tailTexts settings ++ rest = item'.tailTexts settings ++ rest' →
    item.printed settings.enumStyle = item'.printed settings.enumStyle ∧ rest = rest'

theorem allTexts_inj_of_forall (hknown : ∀ item ∈ items, item.KnownFromTail settings)
    (h : AllReadable settings items) (h' : AllReadable settings items') (hrest : EndsItems rest)
    (hrest' : EndsItems rest')
    (heq : allTexts settings modifier items ++ rest = allTexts settings modifier items' ++ rest') :
    allPrinted settings.enumStyle items = allPrinted settings.enumStyle items' ∧ rest = rest' := by
  induction items generalizing items' with
  | nil =>
    cases items' with
    | nil => exact ⟨rfl, heq⟩
    | cons item' items' =>
      have hhead := congrArg List.head? heq
      exact absurd (hrest _ hhead) (opening_ne_brace modifier item')
  | cons item items ih =>
    cases items' with
    | nil =>
      have hhead := congrArg List.head? heq
      exact absurd (hrest' _ hhead.symm) (opening_ne_brace modifier item)
    | cons item' items' =>
      rw [List.forall_mem_cons] at hknown
      simp only [allTexts, List.cons_append, List.append_assoc, List.cons.injEq] at heq
      obtain ⟨hopening, htail⟩ := heq
      obtain ⟨hkind, hname⟩ := opening_inj hopening
      obtain ⟨hsame, hothers⟩ := hknown.1 item' _ _ h.1 h'.1 hkind hname
        (head?_allTexts_ne hrest) (head?_allTexts_ne hrest') htail
      obtain ⟨hitems, hends⟩ := ih hknown.2 h.2 h'.2 hothers
      exact ⟨by rw [allPrinted, allPrinted, hsame, hitems], hends⟩

end list

/-- The texts of a service are not those of a message: a blank line follows the
latter. -/
theorem tailTexts_interface_ne_service {name : String} {leading : Option String}
    {properties : List Property} {typing : ServiceTyping}
    (h : (interface name leading properties).Readable settings)
    (h' : (service typing).Readable settings) {rest rest' : List String}
    (hrest' : rest'.head? ≠ some "") :
    (interface name leading properties).tailTexts settings ++ rest ≠
      (service typing).tailTexts settings ++ rest' := by
  intro heq
  simp only [tailTexts, List.append_assoc, List.cons_append, List.nil_append] at heq
  obtain ⟨-, hends⟩ := members_inj (List.forall_mem_map.2 fun p hp => (h.2.2 p hp).beginsWord)
    (List.forall_mem_map.2 fun o ho => (h'.2.2 o ho).beginsWord) heq
  rw [← hends] at hrest'
  exact hrest' rfl

/-- **An item is known from its texts.** -/
theorem knownFromTail (item : Item) : item.KnownFromTail settings := by
  induction item using Item.scope_induction with
  | interface name leading properties =>
    intro item' rest rest' h h' hkind hname hrest hrest' heq
    cases item' with
    | interface name' leading' properties' =>
      simp only [tailTexts, List.append_assoc, List.cons_append, List.nil_append] at heq
      obtain ⟨hproperties, hends⟩ := members_printed (f := id)
        (fun p hp => (h.2.2 p hp).beginsWord) (fun p hp => (h'.2.2 p hp).beginsWord)
        (fun p hp p' hp' => Property.text_inj (h.2.2 p hp) (h'.2.2 p' hp')) heq
      rw [List.map_id, List.map_id] at hproperties
      rw [h.2.1, h'.2.1, hproperties, show name = name' from hname]
      exact ⟨rfl, (List.cons.inj hends).2⟩
    | service typing' => exact absurd heq (tailTexts_interface_ne_service h h' hrest')
    | enumeration typing' => simp [kindWord] at hkind
    | scope name' items' => simp [kindWord] at hkind
  | enumeration typing =>
    intro item' rest rest' h h' hkind hname hrest hrest' heq
    cases item' with
    | enumeration typing' =>
      simp only [tailTexts, List.append_assoc, List.cons_append, List.nil_append] at heq
      obtain ⟨henumerators, hends⟩ := members_printed
        (fun e he => (h.2.2 e he).beginsWord _) (fun e he => (h'.2.2 e he).beginsWord _)
        (fun e he e' he' => Enumerator.text_inj (h.2.2 e he) (h'.2.2 e' he')) heq
      have hname' : typing.name = typing'.name := hname
      simp only [printed, hname', henumerators, h.2.1, h'.2.1]
      exact ⟨trivial, hends⟩
    | interface name' leading' properties' => simp [kindWord] at hkind
    | service typing' => simp [kindWord] at hkind
    | scope name' items' => simp [kindWord] at hkind
  | service typing =>
    intro item' rest rest' h h' hkind hname hrest hrest' heq
    cases item' with
    | service typing' =>
      simp only [tailTexts, List.append_assoc, List.cons_append, List.nil_append] at heq
      obtain ⟨hoperations, hends⟩ := members_printed (f := id)
        (fun o ho => (h.2.2 o ho).beginsWord) (fun o ho => (h'.2.2 o ho).beginsWord)
        (fun o ho o' ho' => Operation.text_inj (h.2.2 o ho) (h'.2.2 o' ho')) heq
      rw [List.map_id, List.map_id] at hoperations
      have hname' : typing.name = typing'.name := hname
      simp only [printed, hname', hoperations, h.2.1, h'.2.1]
      exact ⟨trivial, hends⟩
    | interface name' leading' properties' =>
      exact absurd heq.symm (tailTexts_interface_ne_service h' h hrest)
    | enumeration typing' => simp [kindWord] at hkind
    | scope name' items' => simp [kindWord] at hkind
  | scope name items ih =>
    intro item' rest rest' h h' hkind hname hrest hrest' heq
    cases item' with
    | scope name' items' =>
      simp only [tailTexts, List.append_assoc, List.cons_append, List.nil_append] at heq
      obtain ⟨hitems, hends⟩ := allTexts_inj_of_forall ih h.2 h'.2 (by simp [EndsItems])
        (by simp [EndsItems]) heq
      have hname' : name = name' := hname
      simp only [printed, hname', hitems]
      simpa using hends
    | interface name' leading' properties' => simp [kindWord] at hkind
    | enumeration typing' => simp [kindWord] at hkind
    | service typing' => simp [kindWord] at hkind

/-- **Items are known from their texts.** What stands after them is nothing, or the
brace that closes around them. -/
theorem allTexts_inj {modifier : Modifier} {items items' : List Item} {rest rest' : List String}
    (h : AllReadable settings items) (h' : AllReadable settings items') (hrest : EndsItems rest)
    (hrest' : EndsItems rest')
    (heq : allTexts settings modifier items ++ rest = allTexts settings modifier items' ++ rest') :
    allPrinted settings.enumStyle items = allPrinted settings.enumStyle items' ∧ rest = rest' :=
  allTexts_inj_of_forall (fun item _ => item.knownFromTail) h h' hrest hrest' heq

end Item

end ProtoTypings
