import Mathlib.Data.List.Basic
import ProtoTypings.Proofs.RenderedLines
/-!
# What the text of a member says

The text of a property, of an enumerator, of an operation and of an import each
say all that was printed: two that are equal come from the same member. Names and
paths are told from what stands around them by their characters.

* `append_inj_of_stops`: two lists that go on with a kind of elements and then stop
  have the same beginning. All other results come down to this one.
* `ValueType.text_inj`, `CallType.text_inj`: a type is known from its text.
* `Property.text_inj`, `Enumerator.text_inj`, `Operation.text_inj`,
  `Import.text_inj`: a member is known from its text.
-/
namespace ProtoTypings

/-! ## Beginnings -/

/-- A list that does not begin with an element of a kind. -/
def Stops {α : Type} (p : α → Bool) (xs : List α) : Prop := ∀ x ∈ xs.head?, p x = false

instance {α : Type} (p : α → Bool) (xs : List α) : Decidable (Stops p xs) :=
  inferInstanceAs (Decidable (∀ x ∈ xs.head?, _))

theorem Stops.takeWhile {α : Type} {p : α → Bool} {xs : List α} (h : Stops p xs) :
    xs.takeWhile p = [] := by
  cases xs with
  | nil => rfl
  | cons x xs =>
    have hx : p x = false := h x rfl
    simp [hx]

/-- **Beginnings of one kind.** Where two lists go on with elements of a kind and then
stop, they go on with the same elements. -/
theorem append_inj_of_stops {α : Type} {p : α → Bool} {xs xs' ys ys' : List α}
    (hxs : ∀ x ∈ xs, p x) (hxs' : ∀ x ∈ xs', p x) (hys : Stops p ys) (hys' : Stops p ys')
    (h : xs ++ ys = xs' ++ ys') : xs = xs' ∧ ys = ys' := by
  have heq : xs = xs' := by
    have hbegin := congrArg (List.takeWhile p) h
    rwa [List.takeWhile_append_of_pos hxs, List.takeWhile_append_of_pos hxs', hys.takeWhile,
      hys'.takeWhile, List.append_nil, List.append_nil] at hbegin
  subst heq
  exact ⟨rfl, List.append_cancel_left h⟩

namespace Text

def isWordChar (c : Char) : Bool := c.isAlphanum || c = '_' || c = '$'

def isPathChar (c : Char) : Bool := isWordChar c || c = '.'

/-- A text all of whose characters are of a kind. -/
def IsMadeOf (p : Char → Bool) (s : String) : Prop := ∀ c ∈ s.toList, p c

instance (p : Char → Bool) (s : String) : Decidable (IsMadeOf p s) :=
  List.decidableBAll _ s.toList

/-- A name of letters, digits, underscores and dollar signs. -/
def IsWord (name : String) : Prop := name ≠ "" ∧ IsMadeOf isWordChar name

instance (name : String) : Decidable (IsWord name) := inferInstanceAs (Decidable (_ ∧ _))

/-- A text of such names and dots. -/
def IsPath (path : String) : Prop := IsMadeOf isPathChar path

instance (path : String) : Decidable (IsPath path) :=
  inferInstanceAs (Decidable (IsMadeOf isPathChar path))

theorem head?_append {s : String} (hs : s ≠ "") (t : String) :
    (s ++ t).toList.head? = s.toList.head? := by
  have hne : s.toList ≠ [] := by simpa using hs
  obtain ⟨c, cs, hchars⟩ := List.exists_cons_of_ne_nil hne
  rw [String.toList_append, hchars]
  rfl

theorem stops_append {p : Char → Bool} {s : String} (hs : s ≠ "") (h : Stops p s.toList)
    (t : String) : Stops p (s ++ t).toList := by
  rwa [Stops, head?_append hs]

/-- The beginnings of two texts, as far as they go on with characters of a kind. -/
theorem append_inj {p : Char → Bool} {s s' t t' : String} (hs : IsMadeOf p s)
    (hs' : IsMadeOf p s') (ht : Stops p t.toList) (ht' : Stops p t'.toList)
    (h : s ++ t = s' ++ t') : s = s' ∧ t = t' := by
  have hchars := congrArg String.toList h
  rw [String.toList_append, String.toList_append] at hchars
  obtain ⟨hs, ht⟩ := append_inj_of_stops hs hs' ht ht' hchars
  exact ⟨String.toList_inj.1 hs, String.toList_inj.1 ht⟩

/-- The beginnings of two texts, where the same text ends both. -/
theorem append_mid_inj {p : Char → Bool} {mid s s' t t' : String}
    (hmid : mid ≠ "" ∧ Stops p mid.toList) (hs : IsMadeOf p s) (hs' : IsMadeOf p s')
    (h : s ++ (mid ++ t) = s' ++ (mid ++ t')) : s = s' ∧ t = t' := by
  have hstops (u : String) : Stops p (mid ++ u).toList := stops_append hmid.1 hmid.2 u
  obtain ⟨hsame, hrest⟩ := append_inj hs hs' (hstops t) (hstops t') h
  exact ⟨hsame, (String.append_right_inj mid).1 hrest⟩

theorem isDigit_of_mem_repr {n : Nat} {c : Char} (h : c ∈ n.repr.toList) : c.isDigit := by
  rw [Nat.toList_repr] at h
  exact Nat.isDigit_of_mem_toDigits (by decide) (by decide) h

theorem natRepr_inj {m n : Nat} (h : m.repr = n.repr) : m = n := by
  have hdigits : Nat.toDigits 10 m = Nat.toDigits 10 n := by
    rw [← Nat.toList_repr, h, Nat.toList_repr]
  simpa using congrArg (Nat.ofDigitChars 10 · 0) hdigits

theorem natRepr_ne_minus (m n : Nat) : m.repr ≠ "-" ++ n.repr := by
  intro h
  have hminus : '-' ∈ m.repr.toList := by simp [h]
  exact absurd (isDigit_of_mem_repr hminus) (by decide)

/-- A number is known from its text: a sign tells the negative ones. -/
theorem intRepr_inj {a b : Int} (h : a.repr = b.repr) : a = b := by
  rw [Int.repr_eq_if, Int.repr_eq_if] at h
  split_ifs at h with ha hb hb
  · have := natRepr_inj h
    omega
  · exact absurd h (natRepr_ne_minus _ _)
  · exact absurd h.symm (natRepr_ne_minus _ _)
  · have := natRepr_inj ((String.append_right_inj "-").1 h)
    omega

end Text

/-! ## Types of values -/

namespace ValueType

/-- The names that stand for types of their own. -/
def plainTexts : List String := ["number", "string", "boolean", "Uint8Array"]

/-- A type whose paths are dotted names that stand for no other type. -/
def Readable : ValueType → Prop
  | named path => Text.IsPath path ∧ path ∉ plainTexts
  | array element => element.Readable
  | map value => value.Readable
  | number | string | boolean | bytes => True

def isPlain : ValueType → Bool
  | array _ | map _ => false
  | number | string | boolean | bytes | named _ => true

@[simp] theorem text_number : number.text = "number" := rfl

@[simp] theorem text_string : string.text = "string" := rfl

@[simp] theorem text_boolean : boolean.text = "boolean" := rfl

@[simp] theorem text_bytes : bytes.text = "Uint8Array" := rfl

@[simp] theorem text_named (path : String) : (named path).text = path := rfl

@[simp] theorem text_array (element : ValueType) :
    (array element).text = "Array<" ++ element.text ++ ">" := rfl

@[simp] theorem text_map (value : ValueType) :
    (map value).text = "\x7b [key: string]: " ++ value.text ++ " \x7d" := rfl

variable {type type' : ValueType}

theorem isPath_text_iff (h : type.Readable) : Text.IsPath type.text ↔ type.isPlain = true := by
  cases type with
  | named path => exact ⟨fun _ => rfl, fun _ => h.1⟩
  | array element =>
    refine ⟨fun hpath => ?_, fun hplain => nomatch hplain⟩
    exact absurd (hpath '<' (by simp)) (by decide)
  | map value =>
    refine ⟨fun hpath => ?_, fun hplain => nomatch hplain⟩
    exact absurd (hpath '\x7b' (by simp)) (by decide)
  | _ => exact ⟨fun _ => rfl, fun _ => by decide⟩

theorem text_inj_of_isPlain (h : type.Readable) (h' : type'.Readable) (hplain : type.isPlain)
    (hplain' : type'.isPlain) (htext : type.text = type'.text) : type = type' := by
  cases type <;> cases type' <;> simp_all [Readable, isPlain, plainTexts]

/-- **A type is known from its text.** -/
theorem text_inj (type : ValueType) :
    ∀ type', type.Readable → type'.Readable → type.text = type'.text → type = type' := by
  induction type with
  | array element ih =>
    intro type' h h' htext
    cases type' with
    | array element' =>
      simp only [text_array, String.append_left_inj, String.append_right_inj] at htext
      rw [ih element' h h' htext]
    | map value' => simp [← String.toList_inj] at htext
    | _ =>
      have hpath := (isPath_text_iff h').2 rfl
      rw [← htext, isPath_text_iff h] at hpath
      cases hpath
  | map value ih =>
    intro type' h h' htext
    cases type' with
    | map value' =>
      simp only [text_map, String.append_left_inj, String.append_right_inj] at htext
      rw [ih value' h h' htext]
    | array element' => simp [← String.toList_inj] at htext
    | _ =>
      have hpath := (isPath_text_iff h').2 rfl
      rw [← htext, isPath_text_iff h] at hpath
      cases hpath
  | _ =>
    intro type' h h' htext
    have hpath := (isPath_text_iff h).2 rfl
    rw [htext, isPath_text_iff h'] at hpath
    exact text_inj_of_isPlain h h' rfl hpath htext

end ValueType

/-! ## Types of calls -/

namespace CallType

/-- A call whose types are dotted names. -/
structure Readable (call : CallType) : Prop where
  input : Text.IsPath call.input
  output : Text.IsPath call.output

/-- A text that may follow a request: it begins with no character of a path and with
no bracket, since that would open a stream. -/
def EndsRequest (t : String) : Prop :=
  Stops Text.isPathChar t.toList ∧ t.toList.head? ≠ some '('

instance (t : String) : Decidable (EndsRequest t) := inferInstanceAs (Decidable (_ ∧ _))

theorem endsRequest_append {s : String} (hs : s ≠ "") (h : EndsRequest s) (t : String) :
    EndsRequest (s ++ t) :=
  ⟨Text.stops_append hs h.1 t, by rw [Text.head?_append hs]; exact h.2⟩

/-- The request of a call: a path, or what gives the values of a stream. -/
theorem request_eq (call : CallType) :
    call.request = "r:" ++ if call.streaming.fromClient then
      "() => \x7bvalue: " ++ (call.input ++ ", done: boolean\x7d") else call.input := by
  unfold request step
  split
  · simp [← String.toList_inj]
  · rfl

/-- What stands after the request. -/
def response (call : CallType) : String :=
  if call.streaming.fromServer then
    ", cb:(a:\x7bvalue: " ++ (call.envelope ++ ", done: boolean\x7d) => void) => void")
  else ") => " ++ call.envelope

theorem callback_eq (call : CallType) : call.callback = "(" ++ (call.request ++ call.response) := by
  unfold callback response step
  split
  · simp [← String.toList_inj]
  · simp only [String.append_assoc]

theorem endsRequest_response (call : CallType) : EndsRequest call.response := by
  unfold response
  split
  · exact endsRequest_append (by decide) (by decide) _
  · exact endsRequest_append (by decide) (by decide) _

/-- A path is no iterator. -/
theorem path_ne_iterated {path : String} (hpath : Text.IsPath path) (u v : String) :
    path ++ (") => " ++ u) ≠ "AsyncIterator<" ++ v := by
  intro heq
  have hsplit : "AsyncIterator<" ++ v = "AsyncIterator" ++ ("<" ++ v) := by
    simp [← String.toList_inj]
  have hname : Text.IsPath "AsyncIterator" := by decide
  rw [hsplit] at heq
  obtain ⟨-, hrest⟩ := Text.append_inj hpath hname (Text.stops_append (by decide) (by decide) u)
    (Text.stops_append (by decide) (by decide) v) heq
  simp [← String.toList_inj] at hrest

/-- The parameter of a call with iterators, and what follows it. -/
theorem iterated_inj {path path' : String} (hpath : Text.IsPath path) (hpath' : Text.IsPath path')
    {isStream isStream' : Bool} {u u' : String}
    (heq : iterated isStream path ++ (") => " ++ u) = iterated isStream' path' ++ (") => " ++ u')) :
    isStream = isStream' ∧ path = path' ∧ u = u' := by
  cases isStream with
  | false =>
    cases isStream' with
    | false =>
      exact ⟨rfl, Text.append_mid_inj (by decide) hpath hpath' heq⟩
    | true =>
      simp only [iterated, Bool.false_eq_true, if_false, if_true, String.append_assoc] at heq
      exact absurd heq (path_ne_iterated hpath _ _)
  | true =>
    cases isStream' with
    | false =>
      simp only [iterated, Bool.false_eq_true, if_false, if_true, String.append_assoc] at heq
      exact absurd heq.symm (path_ne_iterated hpath' _ _)
    | true =>
      simp only [iterated, if_true, String.append_assoc, String.append_right_inj] at heq
      obtain ⟨hsame, hrest⟩ := Text.append_mid_inj (by decide) hpath hpath' heq
      exact ⟨rfl, hsame, (String.append_right_inj _).1 hrest⟩

/-- A path is no stream. -/
theorem path_ne_stream {input t : String} (hinput : Text.IsPath input) (ht : EndsRequest t)
    (u : String) : input ++ t ≠ "() => \x7bvalue: " ++ u := by
  intro heq
  have hstream : Stops Text.isPathChar ("() => \x7bvalue: " ++ u).toList :=
    Text.stops_append (by decide) (by decide) u
  have hempty : Text.IsMadeOf Text.isPathChar "" := by decide
  obtain ⟨-, rfl⟩ := Text.append_inj hinput hempty ht.1 hstream
    (heq.trans String.empty_append.symm)
  exact ht.2 (Text.head?_append (by decide) u)

section pair
variable {call call' : CallType} (h : call.Readable) (h' : call'.Readable)
include h h'

theorem request_inj {t t' : String} (ht : EndsRequest t) (ht' : EndsRequest t')
    (heq : call.request ++ t = call'.request ++ t') :
    call.streaming.fromClient = call'.streaming.fromClient ∧ call.input = call'.input ∧
      t = t' := by
  rw [request_eq, request_eq, String.append_assoc, String.append_assoc,
    String.append_right_inj] at heq
  cases hclient : call.streaming.fromClient with
  | false =>
    cases hclient' : call'.streaming.fromClient with
    | false =>
      simp only [hclient, hclient', Bool.false_eq_true, if_false] at heq
      exact ⟨rfl, Text.append_inj h.input h'.input ht.1 ht'.1 heq⟩
    | true =>
      simp only [hclient, hclient', Bool.false_eq_true, if_false, if_true,
        String.append_assoc] at heq
      exact absurd heq (path_ne_stream h.input ht _)
  | true =>
    cases hclient' : call'.streaming.fromClient with
    | false =>
      simp only [hclient, hclient', Bool.false_eq_true, if_false, if_true,
        String.append_assoc] at heq
      exact absurd heq.symm (path_ne_stream h'.input ht' _)
    | true =>
      simp only [hclient, hclient', if_true, String.append_assoc, String.append_right_inj] at heq
      exact ⟨rfl, Text.append_mid_inj (by decide) h.input h'.input heq⟩

theorem envelope_inj {t t' : String} (heq : call.envelope ++ t = call'.envelope ++ t') :
    call.output = call'.output ∧ t = t' := by
  simp only [envelope, String.append_assoc, String.append_right_inj] at heq
  exact Text.append_mid_inj (by decide) h.output h'.output heq

theorem response_inj (heq : call.response = call'.response) :
    call.streaming.fromServer = call'.streaming.fromServer ∧ call.output = call'.output := by
  unfold response at heq
  cases hserver : call.streaming.fromServer with
  | false =>
    cases hserver' : call'.streaming.fromServer with
    | false =>
      simp only [hserver, hserver', Bool.false_eq_true, if_false, String.append_right_inj] at heq
      exact ⟨rfl, (envelope_inj h h' (congrArg (· ++ "") heq)).1⟩
    | true => simp [hserver, hserver', ← String.toList_inj] at heq
  | true =>
    cases hserver' : call'.streaming.fromServer with
    | false => simp [hserver, hserver', ← String.toList_inj] at heq
    | true =>
      simp only [hserver, hserver', if_true, String.append_right_inj] at heq
      exact ⟨rfl, (envelope_inj h h' heq).1⟩

/-- Calls without iterators. -/
theorem callback_inj (heq : call.callback = call'.callback) :
    call.streaming.fromClient = call'.streaming.fromClient ∧
      call.streaming.fromServer = call'.streaming.fromServer ∧ call.input = call'.input ∧
      call.output = call'.output := by
  rw [callback_eq, callback_eq, String.append_right_inj] at heq
  obtain ⟨hclient, hinput, hrest⟩ :=
    request_inj h h' call.endsRequest_response call'.endsRequest_response heq
  obtain ⟨hserver, houtput⟩ := response_inj h h' hrest
  exact ⟨hclient, hserver, hinput, houtput⟩

/-- Calls with iterators. -/
theorem iterator_inj (heq : call.iterator = call'.iterator) :
    call.streaming.fromClient = call'.streaming.fromClient ∧
      call.streaming.fromServer = call'.streaming.fromServer ∧ call.input = call'.input ∧
      call.output = call'.output := by
  simp only [iterator, String.append_assoc, String.append_right_inj] at heq
  obtain ⟨hclient, hinput, hresult⟩ := iterated_inj h.input h'.input heq
  have hserver : call.streaming.fromServer = call'.streaming.fromServer ∧
      call.output = call'.output := by
    unfold iterated at hresult
    cases hserver : call.streaming.fromServer <;> cases hserver' : call'.streaming.fromServer
    · simp only [hserver, hserver', Bool.false_eq_true, if_false] at hresult
      exact ⟨rfl, (envelope_inj h h' (congrArg (· ++ "") hresult)).1⟩
    · simp [hserver, hserver', envelope, ← String.toList_inj] at hresult
    · simp [hserver, hserver', envelope, ← String.toList_inj] at hresult
    · simp only [hserver, hserver', if_true, String.append_assoc, String.append_right_inj]
        at hresult
      exact ⟨rfl, (envelope_inj h h' hresult).1⟩
  exact ⟨hclient, hserver.1, hinput, hserver.2⟩

end pair

/-- **A call is known from its text.** -/
theorem text_inj {call call' : CallType} (h : call.Readable) (h' : call'.Readable)
    (hstyle : call.asyncIterators = call'.asyncIterators) (heq : call.text = call'.text) :
    call = call' := by
  have hparts : call.streaming.fromClient = call'.streaming.fromClient ∧
      call.streaming.fromServer = call'.streaming.fromServer ∧ call.input = call'.input ∧
      call.output = call'.output := by
    unfold text at heq
    cases hiterators : call'.asyncIterators with
    | false =>
      simp only [hstyle, hiterators, Bool.false_eq_true, if_false] at heq
      exact callback_inj h h' heq
    | true =>
      simp only [hstyle, hiterators, if_true] at heq
      exact iterator_inj h h' heq
  obtain ⟨hclient, hserver, hinput, houtput⟩ := hparts
  have hstreaming : call.streaming = call'.streaming := by
    cases hs : call.streaming <;> cases hs' : call'.streaming <;>
      simp_all [Streaming.fromClient, Streaming.fromServer]
  cases call
  cases call'
  simp_all

end CallType

/-! ## Members -/

/-- A property that can be read: it has a name, a type and no comment. -/
structure Property.Readable (p : Property) : Prop where
  name : Text.IsWord p.name
  type : p.type.Readable
  comment : p.comment = {}

structure Enumerator.Readable (e : Enumerator) : Prop where
  name : Text.IsWord e.name
  comment : e.comment = {}

/-- An operation that can be read, and follows the settings. -/
structure Operation.Readable (settings : Settings) (o : Operation) : Prop where
  name : Text.IsWord o.name
  type : o.type.Readable
  asyncIterators : o.type.asyncIterators = settings.asyncIterators
  comment : o.comment = {}

structure Import.Readable (i : Import) : Prop where
  name : Text.IsWord i.name
  quote : '"' ∉ i.specifier.toList
  newline : '\n' ∉ i.specifier.toList

theorem Property.text_inj {p p' : Property} (h : p.Readable) (h' : p'.Readable)
    (heq : p.text = p'.text) : p = p' := by
  simp only [Property.text, String.append_assoc] at heq
  obtain ⟨hname, hrest⟩ := Text.append_mid_inj (by decide) h.name.2 h'.name.2 heq
  have htype := ValueType.text_inj _ _ h.type h'.type ((String.append_left_inj _).1 hrest)
  have hcomment := h.comment.trans h'.comment.symm
  cases p
  cases p'
  simp_all

theorem Operation.text_inj {settings : Settings} {o o' : Operation} (h : o.Readable settings)
    (h' : o'.Readable settings) (heq : o.text = o'.text) : o = o' := by
  simp only [Operation.text, String.append_assoc] at heq
  obtain ⟨hname, hrest⟩ := Text.append_mid_inj (by decide) h.name.2 h'.name.2 heq
  have hstyle := h.asyncIterators.trans h'.asyncIterators.symm
  have htype := CallType.text_inj h.type h'.type hstyle ((String.append_left_inj _).1 hrest)
  have hcomment := h.comment.trans h'.comment.symm
  cases o
  cases o'
  simp_all

/-- What is printed of an enumerator: its number only where numbers are values. -/
def Enumerator.printed (style : EnumStyle) (e : Enumerator) : Enumerator :=
  match style with
  | .numeric => e
  | .text => { e with number := 0 }

theorem Enumerator.text_inj {style : EnumStyle} {e e' : Enumerator} (h : e.Readable)
    (h' : e'.Readable) (heq : e.text style = e'.text style) :
    e.printed style = e'.printed style := by
  have hcomment := h.comment.trans h'.comment.symm
  cases style with
  | numeric =>
    simp only [Enumerator.text, String.append_assoc] at heq
    obtain ⟨hname, hrest⟩ := Text.append_mid_inj (by decide) h.name.2 h'.name.2 heq
    have hdigits := (String.append_left_inj _).1 hrest
    have hnumber := Int32.toInt_inj.1 (Text.intRepr_inj hdigits)
    cases e
    cases e'
    simp_all
  | text =>
    simp only [Enumerator.text, String.append_assoc] at heq
    obtain ⟨hname, -⟩ := Text.append_mid_inj (by decide) h.name.2 h'.name.2 heq
    simp [Enumerator.printed, hname, hcomment]

def Import.text (i : Import) : String :=
  let statement := "import * as " ++ i.name ++ " from \"" ++ i.specifier ++ "\""
  if i.used then statement else "// " ++ statement ++ " // imported but not used"

theorem Import.line_eq (i : Import) : i.line = .written 0 i.text := rfl

/-- The name of an import ends at a blank, and its module at a quote. -/
theorem Import.statement_inj {i i' : Import} (h : i.Readable) (h' : i'.Readable) {t t' : String}
    (ht : Stops (· != '"') t.toList) (ht' : Stops (· != '"') t'.toList)
    (heq : i.name ++ (" from \"" ++ (i.specifier ++ t)) =
      i'.name ++ (" from \"" ++ (i'.specifier ++ t'))) :
    i.name = i'.name ∧ i.specifier = i'.specifier := by
  have hspecifier {i : Import} (h : i.Readable) : Text.IsMadeOf (· != '"') i.specifier := by
    intro c hc
    rw [bne_iff_ne]
    rintro rfl
    exact h.quote hc
  obtain ⟨hname, hrest⟩ := Text.append_mid_inj (by decide) h.name.2 h'.name.2 heq
  exact ⟨hname, (Text.append_inj (hspecifier h) (hspecifier h') ht ht' hrest).1⟩

/-- What is printed of an import: all but the file that it imports. -/
def Import.printed (i : Import) : Import := { i with file := "" }

theorem Import.text_inj {i i' : Import} (h : i.Readable) (h' : i'.Readable)
    (heq : i.text = i'.text) : i.printed = i'.printed := by
  have hquote (u : String) : Stops (· != '"') ("\"" ++ u).toList :=
    Text.stops_append (by decide) (by decide) u
  have hparts : i.used = i'.used ∧ i.name = i'.name ∧ i.specifier = i'.specifier := by
    unfold Import.text at heq
    cases hused : i.used <;> cases hused' : i'.used <;>
      simp only [hused, hused', Bool.false_eq_true, if_false, if_true] at heq
    · simp only [String.append_assoc, String.append_right_inj] at heq
      exact ⟨rfl, statement_inj h h' (hquote _) (hquote _) heq⟩
    · simp [← String.toList_inj] at heq
    · simp [← String.toList_inj] at heq
    · simp only [String.append_assoc, String.append_right_inj] at heq
      exact ⟨rfl, statement_inj h h' (by decide) (by decide) heq⟩
  obtain ⟨hused, hname, hspecifier⟩ := hparts
  simp [Import.printed, hused, hname, hspecifier]

end ProtoTypings
