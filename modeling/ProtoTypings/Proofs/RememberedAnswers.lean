import ProtoTypings.Proofs.TypingRun
/-!
# Remembered answers

A remembered answer is given without a look at the catalog or the imports:
nothing is named or marked then, and no message around the scope is examined.
Here a resolver is compared with one that works out every answer anew.

**Calls.** A resolver is asked for the reference that a text means (`resolve`),
or for the reference to a type that was looked up already (`refer`). Calls may
fail, and the resolver goes on to answer the next one.

**Results.**
* `Call.answerAnew_congr`: an answer that is worked out depends on nothing that
  is remembered.
* `Call.answer_step`: one call is answered alike with and without a memory, and
  leaves the same imports.
* `Call.transcript_answer_eq`: so is every sequence of calls.
-/
namespace ProtoTypings

inductive Call where
  | resolve (text scope context : String)
  | refer (entry : DeclaredType) (scope : String)

namespace Resolver

/-- Two resolvers that differ at most in what they remember. -/
structure SameTable (r s : Resolver) : Prop where
  catalog : s.catalog = r.catalog
  file : s.file = r.file
  imports : s.imports = r.imports

theorem refer_congr {r s : Resolver} (h : r.SameTable s) (entry : DeclaredType) (scope : String) :
    (s.refer entry scope).1 = (r.refer entry scope).1 ∧
      (r.refer entry scope).2.SameTable (s.refer entry scope).2 := by
  obtain ⟨hcatalog, hfile, himports⟩ := h
  unfold refer localPath
  rw [hcatalog, hfile, himports]
  split
  · exact ⟨rfl, hcatalog, hfile, himports⟩
  · exact ⟨rfl, rfl, rfl, rfl⟩

theorem resolveAnew_congr {r s : Resolver} (h : r.SameTable s) (text scope context : String) :
    (s.resolveAnew text scope context).1 = (r.resolveAnew text scope context).1 ∧
      (r.resolveAnew text scope context).2.SameTable (s.resolveAnew text scope context).2 := by
  unfold resolveAnew
  rw [h.catalog, h.file]
  cases r.catalog.resolve text scope r.file context with
  | error fault => exact ⟨rfl, h⟩
  | ok entry =>
    obtain ⟨hreference, htable⟩ := refer_congr h entry scope
    exact ⟨congrArg Except.ok hreference, htable⟩

/-- A remembered answer is the one that would be worked out, and working it out
would leave the imports as they are. -/
theorem Sound.resolveAnew_eq {S : String → Prop} {r : Resolver} (hr : r.Sound S)
    {text scope : String} (htext : Text.NulFree text) (hscope : Text.NulFree scope)
    {reference : Reference} (hknown : r.known.lookup (key text scope) = some reference)
    (context : String) : r.resolveAnew text scope context = (.ok reference, r) := by
  obtain ⟨q, entry, -, hkey, htarget, hself⟩ := hr.known _ _ hknown
  -- the key is that of this mention only
  have hq : ⟨text, scope⟩ = q := Mention.eq_of_key_eq (q := ⟨text, scope⟩) hscope htext hkey.symm
  subst hq
  have hfound : r.catalog.resolve text scope r.file context = .ok entry := by
    unfold Catalog.resolve
    rw [show r.catalog.resolve? text scope = some entry from htarget]
  unfold resolveAnew
  simp only [hfound]
  rw [show r.refer entry scope = (reference, r) from hself]

end Resolver

namespace Call

/-- What is looked up holds no NUL, neither in its text nor in its scope. -/
def NulFree : Call → Prop
  | resolve text scope _ => Text.NulFree text ∧ Text.NulFree scope
  | refer _ _ => True

instance : DecidablePred NulFree
  | resolve _ _ _ => inferInstanceAs (Decidable (_ ∧ _))
  | refer _ _ => inferInstanceAs (Decidable True)

/-- What is looked up is looked up in a scope with `S`. -/
def LooksUpIn (S : String → Prop) : Call → Prop
  | resolve _ scope _ => S scope
  | refer _ _ => True

theorem looksUpIn_true (call : Call) : call.LooksUpIn fun _ => True := by
  cases call with
  | resolve => trivial
  | refer => trivial

def answer (r : Resolver) : Call → Except Fault Reference × Resolver
  | resolve text scope context => r.resolve text scope context
  | refer entry scope => (.ok (r.refer entry scope).1, (r.refer entry scope).2)

/-- The answer to a call when nothing is remembered and nothing that is
remembered is used. -/
def answerAnew (r : Resolver) : Call → Except Fault Reference × Resolver
  | resolve text scope context => r.resolveAnew text scope context
  | refer entry scope => (.ok (r.refer entry scope).1, (r.refer entry scope).2)

/-- The answers to a list of calls, each with the imports after it. -/
def transcript (ask : Resolver → Call → Except Fault Reference × Resolver) (r : Resolver) :
    List Call → List (Except Fault Reference × List Import)
  | [] => []
  | call :: rest =>
    ((ask r call).1, (ask r call).2.imports.list) :: transcript ask (ask r call).2 rest

theorem answerAnew_congr {r s : Resolver} (h : r.SameTable s) (call : Call) :
    (answerAnew s call).1 = (answerAnew r call).1 ∧
      (answerAnew r call).2.SameTable (answerAnew s call).2 := by
  cases call with
  | resolve text scope context => exact Resolver.resolveAnew_congr h text scope context
  | refer entry scope =>
    obtain ⟨hreference, htable⟩ := Resolver.refer_congr h entry scope
    exact ⟨congrArg Except.ok hreference, htable⟩

/-- A call keeps what holds throughout a run, whether it fails or not. -/
theorem answer_sound {S : String → Prop} {r : Resolver} (hr : r.Sound S) {call : Call}
    (hcall : call.LooksUpIn S) : (answer r call).2.Sound S := by
  cases call with
  | resolve text scope context =>
    rcases h : r.resolve text scope context with ⟨fault | reference, next⟩
    · -- a failed lookup leaves the resolver alone
      obtain ⟨-, -, -, rfl⟩ := (Resolver.resolve_eq_error_iff (q := ⟨text, scope⟩)).1 h
      simpa [answer, h] using hr
    · have := Resolver.resolve_sound (q := ⟨text, scope⟩) hr hcall h
      simpa [answer, h] using this
  | refer entry scope => exact Resolver.refer_sound hr rfl

/-- One call is answered as if nothing were remembered. -/
theorem answer_eq_answerAnew {r : Resolver} (hr : r.Sound fun _ => True) {call : Call}
    (hcall : call.NulFree) :
    (answer r call).1 = (answerAnew r call).1 ∧
      (answer r call).2.SameTable (answerAnew r call).2 := by
  cases call with
  | refer entry scope => exact ⟨rfl, rfl, rfl, rfl⟩
  | resolve text scope context =>
    show (r.resolve text scope context).1 = (r.resolveAnew text scope context).1 ∧
      (r.resolve text scope context).2.SameTable (r.resolveAnew text scope context).2
    unfold Resolver.resolve
    cases hknown : r.known.lookup (Resolver.key text scope) with
    | some reference =>
      rw [hr.resolveAnew_eq hcall.1 hcall.2 hknown context]
      exact ⟨rfl, rfl, rfl, rfl⟩
    | none =>
      rcases r.resolveAnew text scope context with ⟨fault | reference, next⟩
      · exact ⟨rfl, rfl, rfl, rfl⟩
      · exact ⟨rfl, rfl, rfl, rfl⟩

/-- One call, asked of a resolver that remembers and of one that does not. -/
theorem answer_step {r s : Resolver} (hr : r.Sound fun _ => True) (h : r.SameTable s) {call : Call}
    (hcall : call.NulFree) :
    (answer r call).1 = (answerAnew s call).1 ∧
      (answer r call).2.SameTable (answerAnew s call).2 := by
  obtain ⟨hanswer, htable⟩ := answer_eq_answerAnew hr hcall
  obtain ⟨hanswer', htable'⟩ := answerAnew_congr h call
  refine ⟨hanswer.trans hanswer'.symm, ?_, ?_, ?_⟩
  · exact htable'.catalog.trans htable.catalog
  · exact htable'.file.trans htable.file
  · exact htable'.imports.trans htable.imports

theorem transcript_eq_of_sameTable (calls : List Call) :
    ∀ r s : Resolver, r.Sound (fun _ => True) → r.SameTable s →
      (∀ call ∈ calls, call.NulFree) →
        transcript answer r calls = transcript answerAnew s calls := by
  induction calls with
  | nil => exact fun _ _ _ _ _ => rfl
  | cons call rest ih =>
    intro r s hr h hcalls
    obtain ⟨hcall, hrest⟩ := List.forall_mem_cons.1 hcalls
    obtain ⟨hanswer, htable⟩ := answer_step hr h hcall
    unfold transcript
    rw [hanswer, htable.imports, ih _ _ (answer_sound hr call.looksUpIn_true) htable hrest]

/-- **The memory of a resolver does not show.** Every answer to a list of calls
that look up texts without NUL, faults included, and the imports after each of
them are those of a resolver that remembers nothing. -/
theorem transcript_answer_eq (catalog : Catalog) (path : String) {calls : List Call}
    (h : ∀ call ∈ calls, call.NulFree) :
    transcript answer (Resolver.ofFile catalog path) calls =
      transcript answerAnew (Resolver.ofFile catalog path) calls :=
  transcript_eq_of_sameTable calls _ _ (Resolver.sound_ofFile _ catalog path) ⟨rfl, rfl, rfl⟩ h

end Call

/-- Calls for the sample file: a reference asked for twice, one that fails, and
types of two other files. -/
def Sample.calls : List Call :=
  [.resolve ".lib.Id" "shop.Order.Line" "first",
   .resolve "Money" "shop.Order" "unknown",
   .refer (EnumType.declared "lib/units.proto" "lib" "" { name := "Unit" }) "shop.Order",
   .resolve ".lib.Id" "shop.Order.Line" "again"]

theorem Call.transcript_answer_eq_shop :
    (∀ call ∈ Sample.calls, call.NulFree) ∧
      Call.transcript Call.answer (Resolver.ofFile Sample.catalog "shop.proto") Sample.calls =
        Call.transcript Call.answerAnew (Resolver.ofFile Sample.catalog "shop.proto")
          Sample.calls := by
  have hcalls : ∀ call ∈ Sample.calls, call.NulFree := by decide
  exact ⟨hcalls, Call.transcript_answer_eq Sample.catalog "shop.proto" hcalls⟩

end ProtoTypings
