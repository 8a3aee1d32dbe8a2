import ProtoTypings.Proofs.TypingRun
/-!
# Fields that cannot be typed

Typing a field looks several things up in the catalog and then asks the resolver, which may name
an import, mark it and remember the answer. The resolver is asked at most once and last, so a
fault, wherever it comes from, leaves the resolver as it was. (A method asks twice: if its
response type is the one that fails, what the request type did stays.)

**Calls.** `FieldCall`: a field, typed at a site under some settings. Calls follow each other on one
resolver, and those that fail do not end the sequence. `Thins answered kept`: `kept` is `answered`
without some of the calls that failed.

**Results.**
* `Field.failsClean_typing`: a fault leaves the resolver as it was.
* `FieldCall.transcript_of_thins`: in a sequence, calls that failed can be left out.
* `FieldCall.failures_leave_no_trace`: both.
-/
namespace ProtoTypings

/-! ## Faults that change nothing -/

namespace ResolveM

variable {α β : Type} {x : ResolveM α}

/-- The computation leaves every resolver as it is, however it ends. -/
def KeepsResolver (x : ResolveM α) : Prop :=
  ∀ r, (x.run.run r).2 = r

/-- If the computation fails, the resolver is as it was before. -/
def FailsClean (x : ResolveM α) : Prop :=
  ∀ r fault r', x.Fails r fault r' → r' = r

theorem keepsResolver_get : KeepsResolver (get : ResolveM Resolver) := fun _ => rfl

theorem keepsResolver_lift (e : Except Fault α) : KeepsResolver (liftM e : ResolveM α) :=
  fun _ => rfl

theorem KeepsResolver.eq (h : KeepsResolver x) {r r' : Resolver} {result : Except Fault α}
    (hrun : x.run.run r = (result, r')) : r' = r := by
  have hsnd : (x.run.run r).2 = r' := congrArg Prod.snd hrun
  rw [← hsnd, h r]

/-- What changes the resolver has to come last. -/
theorem KeepsResolver.bind {f : α → ResolveM β} (hx : KeepsResolver x)
    (hf : ∀ a, FailsClean (f a)) : FailsClean (x >>= f) := by
  intro r fault r' h
  obtain hfirst | ⟨a, next, hyields, hsecond⟩ := fails_bind_iff.1 h
  · exact hx.eq hfirst
  · obtain rfl := hx.eq hyields
    exact hf a next fault r' hsecond

theorem failsClean_pure (a : α) : FailsClean (pure a) :=
  fun _ _ _ h => absurd h not_fails_pure

theorem failsClean_throw (fault : Fault) : FailsClean (throw fault : ResolveM α) :=
  fun _ _ _ h => (fails_throw_iff.1 h).2.symm

theorem FailsClean.map (h : FailsClean x) (f : α → β) : FailsClean (f <$> x) := by
  intro r fault r' hfails
  rw [map_eq_pure_bind] at hfails
  obtain hfirst | ⟨a, next, -, hpure⟩ := fails_bind_iff.1 hfails
  · exact h r fault r' hfirst
  · exact absurd hpure not_fails_pure

theorem failsClean_path (text scope context : String) :
    FailsClean (ResolveM.path text scope context) := by
  intro r fault r' h
  obtain hresolve | ⟨reference, next, -, hpure⟩ := fails_bind_iff.1 h
  · exact ((Resolver.resolve_eq_error_iff (q := ⟨text, scope⟩)).1 hresolve).2.2.2
  · exact absurd hpure not_fails_pure

end ResolveM

namespace Field

open ResolveM

variable (settings : Settings) (site : FieldSite) (field : Field)

theorem failsClean_namedPath : FailsClean (field.namedPath site) := by
  unfold namedPath
  split
  · exact failsClean_throw _
  · exact failsClean_path _ _ _

theorem failsClean_valueOfKind (kind : FieldType) :
    FailsClean (field.valueOfKind settings site kind) := by
  cases kind with
  | enum | message | group => exact (field.failsClean_namedPath site).map _
  | _ => exact failsClean_pure _

theorem failsClean_value : FailsClean (field.value settings site) :=
  keepsResolver_get.bind fun _ => (keepsResolver_lift _).bind fun kind =>
    field.failsClean_valueOfKind settings site kind

/-- **A field that cannot be typed** leaves the resolver as it was. -/
theorem failsClean_typing : FailsClean (field.typing settings site) := by
  unfold Field.typing
  refine keepsResolver_get.bind fun _ => (keepsResolver_lift _).bind fun found => ?_
  cases found with
  | none => exact (field.failsClean_value settings site).map _
  | some found =>
    refine (keepsResolver_lift _).bind fun value => ?_
    rw [bind_pure_comp]
    exact (value.failsClean_value settings site).map _

end Field

/-! ## Sequences of calls -/

structure FieldCall where
  settings : Settings := {}
  site : FieldSite
  field : Field

namespace FieldCall

def answer (r : Resolver) (call : FieldCall) : Except Fault FieldTyping × Resolver :=
  (call.field.typing call.settings call.site).run.run r

def transcript (r : Resolver) : List FieldCall → List (FieldCall × Except Fault FieldTyping)
  | [] => []
  | call :: rest => (call, (answer r call).1) :: transcript (answer r call).2 rest

def after (r : Resolver) (calls : List FieldCall) : Resolver :=
  calls.foldl (fun r call => (answer r call).2) r

/-- The second list is the first without some of the calls that failed. -/
inductive Thins : List (FieldCall × Except Fault FieldTyping) →
    List (FieldCall × Except Fault FieldTyping) → Prop
  | nil : Thins [] []
  | keep (call : FieldCall × Except Fault FieldTyping)
      {answered kept : List (FieldCall × Except Fault FieldTyping)} :
      Thins answered kept → Thins (call :: answered) (call :: kept)
  | leave (call : FieldCall) (fault : Fault)
      {answered kept : List (FieldCall × Except Fault FieldTyping)} :
      Thins answered kept → Thins ((call, .error fault) :: answered) kept

theorem answer_snd_of_error {r : Resolver} {call : FieldCall} {fault : Fault}
    (h : (answer r call).1 = .error fault) : (answer r call).2 = r :=
  call.field.failsClean_typing call.settings call.site r fault _ (Prod.ext h rfl)

/-- **Calls that failed can be left out.** By induction on the calls: one that is left out leaves
the resolver to the others as it was. -/
theorem transcript_of_thins {calls : List FieldCall} :
    ∀ {r : Resolver} {kept : List (FieldCall × Except Fault FieldTyping)},
      Thins (transcript r calls) kept →
      transcript r (kept.map (·.1)) = kept ∧ after r (kept.map (·.1)) = after r calls := by
  induction calls with
  | nil =>
    intro r kept h
    cases h
    exact ⟨rfl, rfl⟩
  | cons call rest ih =>
    intro r kept h
    unfold transcript at h
    generalize hanswer : (answer r call).1 = result at h
    cases h with
    | keep _ h =>
      obtain ⟨htranscript, hafter⟩ := ih h
      refine ⟨?_, hafter⟩
      rw [List.map_cons, transcript, hanswer, htranscript]
    | leave _ fault h =>
      have hsame := answer_snd_of_error hanswer
      rw [hsame] at h
      obtain ⟨htranscript, hafter⟩ := ih h
      refine ⟨htranscript, hafter.trans ?_⟩
      rw [after, after, List.foldl_cons, hsame]

/-- All calls that failed may be left out at once. -/
theorem thins_filter (answered : List (FieldCall × Except Fault FieldTyping)) :
    Thins answered (answered.filter (·.2.isOk)) := by
  induction answered with
  | nil => exact .nil
  | cons call rest ih =>
    obtain ⟨call, fault | typing⟩ := call
    · exact .leave call fault ih
    · exact .keep (call, .ok typing) ih

/-- **Fields that cannot be typed leave no trace.** Whatever a resolver holds, a call that fails,
for whatever reason, leaves it as it was: its imports with their names and marks, and all that it
remembers. So some or all of the calls that failed may be taken out of a sequence of calls, and
the others are answered as before and leave the same resolver. -/
theorem failures_leave_no_trace (r : Resolver) :
    (∀ (call : FieldCall) (fault : Fault) (r' : Resolver),
      answer r call = (.error fault, r') → r' = r) ∧
    ∀ calls : List FieldCall,
      (∀ kept, Thins (transcript r calls) kept →
        transcript r (kept.map (·.1)) = kept ∧ after r (kept.map (·.1)) = after r calls) ∧
      transcript r (((transcript r calls).filter (·.2.isOk)).map (·.1)) =
        (transcript r calls).filter (·.2.isOk) ∧
      after r (((transcript r calls).filter (·.2.isOk)).map (·.1)) = after r calls := by
  refine ⟨fun call fault r' h => ?_, fun calls => ⟨fun kept h => transcript_of_thins h, ?_⟩⟩
  · exact call.field.failsClean_typing call.settings call.site r fault r' h
  · exact transcript_of_thins (thins_filter _)

end FieldCall

/-! ## A sample -/

namespace Sample

def coin : File where
  name := some "coin.proto"
  package := some "coin"
  messages := [{ name := "Coin" }]

def entryOf (name : String) (fields : List Field) : Message where
  name := name
  fields := fields
  isMapEntry := true

/-- Three map entries: one with values of another file, one whose values have a type that is
nowhere, and one without a key. -/
def till : File where
  name := some "till.proto"
  package := some "till"
  messages :=
    [{ name := "Till"
       nested :=
        [entryOf "CoinsEntry" [{ number := some 1, typeCode := some 9 },
           { number := some 2, typeCode := some 11, typeName := ".coin.Coin" }],
         entryOf "BillsEntry" [{ number := some 1, typeCode := some 9 },
           { number := some 2, typeCode := some 11, typeName := ".coin.Bill" }],
         entryOf "LooseEntry" [{ number := some 2, typeCode := some 9 }]] }]

def tillCatalog : Catalog := ⟨[coin, till], coin.types ++ till.types⟩

def tillCall (name : String) (label : Label) (code : Int32) (typeName : String) : FieldCall where
  site := ⟨"till.Till", "till.proto"⟩
  field := { name := name, label := label, typeCode := some code, typeName := typeName }

/-- Two fields that can be typed, the first of which brings in an import, among four that
cannot. -/
def tillCalls : List FieldCall :=
  [tillCall "bills" .repeated 11 "BillsEntry", tillCall "coins" .repeated 11 "CoinsEntry",
   tillCall "loose" .repeated 11 "LooseEntry", tillCall "odd" .optional 99 "Till",
   tillCall "gone" .optional 11 "Purse", tillCall "coin" .optional 11 ".coin.Coin"]

end Sample

theorem FieldCall.failures_leave_no_trace_till :
    (∃ fault, FieldCall.answer (.ofFile Sample.tillCatalog "till.proto")
        (Sample.tillCall "bills" .repeated 11 "BillsEntry") =
      (.error fault, .ofFile Sample.tillCatalog "till.proto")) ∧
    (∃ kept,
      FieldCall.Thins (FieldCall.transcript (.ofFile Sample.tillCatalog "till.proto")
        Sample.tillCalls) kept ∧
      kept.map (·.1.field.name) = ["coins", "coin"] ∧
      FieldCall.transcript (.ofFile Sample.tillCatalog "till.proto") (kept.map (·.1)) = kept ∧
      FieldCall.after (.ofFile Sample.tillCatalog "till.proto") (kept.map (·.1)) =
        FieldCall.after (.ofFile Sample.tillCatalog "till.proto") Sample.tillCalls) ∧
    (FieldCall.after (.ofFile Sample.tillCatalog "till.proto") Sample.tillCalls).imports.list =
      [{ name := "coin", file := "coin.proto", specifier := "coin", used := true }] := by
  obtain ⟨hstep, hrun⟩ :=
    FieldCall.failures_leave_no_trace (.ofFile Sample.tillCatalog "till.proto")
  refine ⟨?_, ⟨_, FieldCall.thins_filter _, rfl, ?_⟩, rfl⟩
  · have hanswer : ∃ fault r', FieldCall.answer (.ofFile Sample.tillCatalog "till.proto")
        (Sample.tillCall "bills" .repeated 11 "BillsEntry") = (.error fault, r') := ⟨_, _, rfl⟩
    obtain ⟨fault, r', hanswer⟩ := hanswer
    rw [hstep _ fault r' hanswer] at hanswer
    exact ⟨fault, hanswer⟩
  · exact (hrun Sample.tillCalls).1 _ (FieldCall.thins_filter _)

/-- A method may leave a trace: the file of its request type is imported before the response type
is missed. -/
example :
    ∃ fault r', (Method.callType {} "till.Desk"
        { name := "Swap", input := ".coin.Coin", output := ".coin.Bill" }).Fails
          (.ofFile Sample.tillCatalog "till.proto") fault r' ∧
      (Resolver.ofFile Sample.tillCatalog "till.proto").imports.list = [] ∧
      r'.imports.list.map (·.file) = ["coin.proto"] :=
  ⟨_, _, rfl, rfl, rfl⟩

end ProtoTypings
