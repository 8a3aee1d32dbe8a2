import ProtoTypings.Proofs.ImportBlock
import ProtoTypings.Proofs.RememberedAnswers
/-!
# Names that do not depend on use

A resolver names the direct dependencies of its file before it is asked
anything. What is asked later adds imports from the same pool of names, marks
imports and fills the memory. Here: none of this reaches the names that were
there at the start.

**Histories.** `Call.after r calls` is the resolver after a list of calls, some
of which may have failed. `Resolver.Continues start r` is what every history
keeps: the table of `r` is that of `start`, marks aside, with further imports
behind it, and whatever is remembered was asked without NUL.

**Results.**
* `Call.continues_answer`, `Call.continues_after`: one call keeps `Continues`, and
  so does every history.
* `Resolver.Continues.resolve_eq`: a type of the file or of a dependency is named
  as at the start.
* `Call.direct_imports_stable`: two histories compared.
-/
namespace ProtoTypings

def Import.unmarked (i : Import) : Import := { i with used := false }

@[simp] theorem Import.file_unmarked (i : Import) : i.unmarked.file = i.file := rfl

@[simp] theorem Import.name_unmarked (i : Import) : i.unmarked.name = i.name := rfl

namespace Imports

/-- A table that begins with the imports of another, marks aside. -/
def BeginsWith (imports start : Imports) : Prop :=
  start.list.map Import.unmarked <+: imports.list.map Import.unmarked

theorem BeginsWith.refl (imports : Imports) : imports.BeginsWith imports := List.prefix_rfl

theorem BeginsWith.trans {last next start : Imports} (h : last.BeginsWith next)
    (h' : next.BeginsWith start) : last.BeginsWith start := List.IsPrefix.trans h' h

/-- A visit adds at the end and marks. -/
theorem beginsWith_visit (imports : Imports) (file : String) :
    (imports.visit file).BeginsWith imports := by
  obtain ⟨added, hadded⟩ := list_add_prefix imports file
  unfold BeginsWith visit
  rw [map_markUsed Import.unmarked (fun _ => rfl), hadded, List.map_append]
  exact List.prefix_append _ _

/-- The name of a file stays as the table goes on. -/
theorem BeginsWith.nameOf_eq {imports start : Imports} (h : imports.BeginsWith start)
    (himports : imports.WellFormed) (hstart : start.WellFormed) {file : String}
    (hfile : file ∈ start.files) : imports.nameOf file = start.nameOf file := by
  obtain ⟨i, hi, rfl⟩ := List.mem_map.1 hfile
  have hmem : i.unmarked ∈ imports.list.map Import.unmarked :=
    h.subset (List.mem_map_of_mem hi)
  obtain ⟨j, hj, hsame⟩ := List.mem_map.1 hmem
  have hjfile : j.file = i.file := by simpa using congrArg Import.file hsame
  have hjname : j.name = i.name := by simpa using congrArg Import.name hsame
  rw [nameOf_of_mem hstart hi, ← hjfile, nameOf_of_mem himports hj, hjname]

end Imports

namespace Resolver

/-- What a resolver keeps of the one that it started as. -/
structure Continues (start r : Resolver) : Prop where
  catalog : r.catalog = start.catalog
  file : r.file = start.file
  imports : r.imports.BeginsWith start.imports
  sound : r.Sound fun _ => True
  asked : ∀ key reference, r.known.lookup key = some reference →
    ∃ q : Mention, Text.NulFree q.text ∧ Text.NulFree q.scope ∧ q.key = key

theorem continues_ofFile (catalog : Catalog) (path : String) :
    (ofFile catalog path).Continues (ofFile catalog path) :=
  ⟨rfl, rfl, .refl _, sound_ofFile _ catalog path, fun key reference h => by simp [ofFile] at h⟩

theorem beginsWith_refer {r next : Resolver} {entry : DeclaredType} {scope : String}
    {reference : Reference} (h : r.refer entry scope = (reference, next)) :
    next.imports.BeginsWith r.imports := by
  rw [refer_imports h]
  split
  · exact .refl _
  · exact Imports.beginsWith_visit r.imports entry.file

theorem Continues.refer {start r next : Resolver} (h : start.Continues r) {entry : DeclaredType}
    {scope : String} {reference : Reference} (hrefer : r.refer entry scope = (reference, next)) :
    start.Continues next := by
  obtain ⟨hext, hknown⟩ := refer_extends hrefer
  refine ⟨hext.catalog.trans h.catalog, hext.file.trans h.file,
    (beginsWith_refer hrefer).trans h.imports, refer_sound h.sound hrefer, ?_⟩
  rw [hknown]
  exact h.asked

theorem Continues.resolve {start r next : Resolver} (h : start.Continues r) {q : Mention}
    (htext : Text.NulFree q.text) (hscope : Text.NulFree q.scope) {context : String}
    {answer : Except Fault Reference}
    (hresolve : r.resolve q.text q.scope context = (answer, next)) :
    start.Continues next := by
  cases answer with
  | error fault =>
    obtain ⟨-, -, -, rfl⟩ := resolve_eq_error_iff.1 hresolve
    exact h
  | ok reference =>
    have hsound := resolve_sound h.sound trivial hresolve
    obtain ⟨-, rfl⟩ | ⟨-, entry, mid, -, hrefer, rfl⟩ := resolve_eq_ok_iff.1 hresolve
    · exact h
    · have hmid := h.refer hrefer
      refine ⟨hmid.catalog, hmid.file, hmid.imports, hsound, fun key found hknown => ?_⟩
      by_cases hkey : key = q.key
      · exact ⟨q, htext, hscope, hkey.symm⟩
      · rw [remember, List.lookup_cons, beq_false_of_ne hkey] at hknown
        exact hmid.asked key found hknown

/-- What is remembered does not show, whatever is asked: a mention with a NUL
has the key of no mention without. -/
theorem Continues.resolve_eq_resolveAnew {start r : Resolver} (h : start.Continues r)
    (text scope context : String) :
    (r.resolve text scope context).1 = (r.resolveAnew text scope context).1 := by
  unfold Resolver.resolve
  cases hknown : r.known.lookup (key text scope) with
  | some reference =>
    obtain ⟨q, htext, hscope, hkey⟩ := h.asked _ _ hknown
    have hq : q = ⟨text, scope⟩ := Mention.eq_of_key_eq hscope htext hkey
    subst hq
    rw [h.sound.resolveAnew_eq htext hscope hknown context]
  | none => rcases r.resolveAnew text scope context with ⟨fault | reference, next⟩ <;> rfl

/-- A type of the file itself, or of a file that was imported at the start, is
referred to as at the start. -/
theorem Continues.refer_eq {start r : Resolver} (h : start.Continues r)
    (hstart : start.imports.WellFormed) {entry : DeclaredType}
    (hentry : entry.file = start.file ∨ entry.file ∈ start.imports.files) (scope : String) :
    (r.refer entry scope).1 = (start.refer entry scope).1 := by
  have hlocal : r.localPath entry scope = start.localPath entry scope := by
    unfold localPath
    rw [h.catalog]
  unfold Resolver.refer
  rw [h.file]
  by_cases hfile : entry.file = start.file
  · rw [if_pos hfile, if_pos hfile, hlocal]
  · have hname := h.imports.nameOf_eq h.sound.imports hstart (hentry.resolve_left hfile)
    rw [if_neg hfile, if_neg hfile, hname]

theorem Continues.resolve_eq {start r : Resolver} (h : start.Continues r)
    (hstart : start.imports.WellFormed) {text scope : String} {entry : DeclaredType}
    (htarget : start.catalog.resolve? text scope = some entry)
    (hentry : entry.file = start.file ∨ entry.file ∈ start.imports.files) (context : String) :
    (r.resolve text scope context).1 = .ok (start.refer entry scope).1 := by
  have hfound : r.catalog.resolve text scope r.file context = .ok entry := by
    unfold Catalog.resolve
    rw [h.catalog, htarget]
  rw [h.resolve_eq_resolveAnew]
  unfold resolveAnew
  simp only [hfound]
  rw [h.refer_eq hstart hentry scope]

end Resolver

/-- The direct dependencies of a file, each once; a path without a file has
none. -/
def Catalog.directFiles (catalog : Catalog) (path : String) : List String :=
  match catalog.file? path with
  | some file => file.dependencies.eraseDups
  | none => []

theorem Catalog.files_ofFile (catalog : Catalog) (path : String) :
    (Resolver.ofFile catalog path).imports.files = catalog.directFiles path := by
  unfold Catalog.directFiles
  cases h : catalog.file? path with
  | some file => exact (Resolver.files_ofFile h).1
  | none =>
    unfold Resolver.ofFile
    rw [h]
    rfl

namespace Call

def after (r : Resolver) (calls : List Call) : Resolver :=
  calls.foldl (fun r call => (answer r call).2) r

/-- One call keeps what every history keeps, whether it fails or not. -/
theorem continues_answer {start r : Resolver} (h : start.Continues r) {call : Call}
    (hcall : call.NulFree) : start.Continues (answer r call).2 := by
  cases call with
  | resolve text scope context =>
    exact Resolver.Continues.resolve (q := ⟨text, scope⟩) h hcall.1 hcall.2 rfl
  | refer entry scope => exact h.refer rfl

theorem continues_after {start r : Resolver} (h : start.Continues r) {calls : List Call}
    (hcalls : ∀ call ∈ calls, call.NulFree) : start.Continues (after r calls) := by
  induction calls generalizing r with
  | nil => exact h
  | cons call rest ih =>
    obtain ⟨hcall, hrest⟩ := List.forall_mem_cons.1 hcalls
    exact ih (continues_answer h hcall) hrest

theorem answer_extends (r : Resolver) (call : Call) : r.Extends (answer r call).2 := by
  cases call with
  | refer entry scope => exact (Resolver.refer_extends rfl).1
  | resolve text scope context =>
    rcases h : r.resolve text scope context with ⟨fault | reference, next⟩
    · obtain ⟨-, -, -, rfl⟩ := (Resolver.resolve_eq_error_iff (q := ⟨text, scope⟩)).1 h
      simpa [answer, h] using Resolver.Extends.refl next
    · have := (Resolver.resolve_extends (q := ⟨text, scope⟩) h).1
      simpa [answer, h] using this

theorem after_extends (r : Resolver) (calls : List Call) : r.Extends (after r calls) := by
  induction calls generalizing r with
  | nil => exact .refl r
  | cons call rest ih => exact (answer_extends r call).trans (ih _)

theorem after_sound {S : String → Prop} {r : Resolver} (hr : r.Sound S) {calls : List Call}
    (hcalls : ∀ call ∈ calls, call.LooksUpIn S) : (after r calls).Sound S := by
  induction calls generalizing r with
  | nil => exact hr
  | cons call rest ih =>
    obtain ⟨hcall, hrest⟩ := List.forall_mem_cons.1 hcalls
    exact ih (answer_sound hr hcall) hrest

/-- **Names do not depend on use.** After any two histories of calls that look up
texts without NUL, a text that means a type of the file or of a direct dependency
is answered by one and the same reference, and both tables begin with the same
imports of the direct dependencies, marks aside. -/
theorem direct_imports_stable (catalog : Catalog) (path : String) {calls calls' : List Call}
    (h : ∀ call ∈ calls, call.NulFree) (h' : ∀ call ∈ calls', call.NulFree) :
    (∀ text scope entry, catalog.resolve? text scope = some entry →
      entry.file = path ∨ entry.file ∈ catalog.directFiles path →
      ∃ reference, ∀ context,
        ((after (.ofFile catalog path) calls).resolve text scope context).1 = .ok reference ∧
        ((after (.ofFile catalog path) calls').resolve text scope context).1 = .ok reference) ∧
    ∃ direct : List Import, direct.map (·.file) = catalog.directFiles path ∧
      direct <+: (after (.ofFile catalog path) calls).imports.list.map Import.unmarked ∧
      direct <+: (after (.ofFile catalog path) calls').imports.list.map Import.unmarked := by
  have hstart := Resolver.continues_ofFile catalog path
  have hleft := continues_after hstart h
  have hright := continues_after hstart h'
  refine ⟨fun text scope entry htarget hentry => ?_, ?_⟩
  · rw [← Catalog.files_ofFile] at hentry
    refine ⟨((Resolver.ofFile catalog path).refer entry scope).1, fun context => ⟨?_, ?_⟩⟩
    · exact hleft.resolve_eq hstart.sound.imports htarget hentry context
    · exact hright.resolve_eq hstart.sound.imports htarget hentry context
  · refine ⟨_, ?_, hleft.imports, hright.imports⟩
    rw [← Catalog.files_ofFile, List.map_map]
    rfl

/-- One history for the sample file imports a further file, the other none. -/
theorem direct_imports_stable_shop :
    (∀ call ∈ Sample.calls, call.NulFree) ∧
      ∃ reference : Reference, reference.via = some "lib_units" ∧
        ((after (.ofFile Sample.catalog "shop.proto") Sample.calls).resolve
          ".lib.Unit" "shop.Order" "unit").1 = .ok reference ∧
        ((after (.ofFile Sample.catalog "shop.proto") []).resolve
          ".lib.Unit" "shop.Order" "unit").1 = .ok reference ∧
        (after (.ofFile Sample.catalog "shop.proto") Sample.calls).imports.files =
          ["lib/units.proto", "lib/base.proto"] ∧
        (after (.ofFile Sample.catalog "shop.proto") []).imports.files = ["lib/units.proto"] := by
  have hcalls : ∀ call ∈ Sample.calls, call.NulFree := by decide
  obtain ⟨hanswers, -⟩ := direct_imports_stable Sample.catalog "shop.proto" hcalls
    (List.forall_mem_nil NulFree)
  obtain ⟨reference, hreference⟩ := hanswers ".lib.Unit" "shop.Order" _ rfl (.inr (by decide))
  refine ⟨hcalls, reference, ?_, (hreference "unit").1, (hreference "unit").2, by decide, by decide⟩
  have hvalue := (hreference "unit").2
  have hfresh : ((after (.ofFile Sample.catalog "shop.proto") []).resolve
      ".lib.Unit" "shop.Order" "unit").1 =
        .ok { path := "lib_units.Unit", via := some "lib_units" } := by rfl
  rw [hfresh, Except.ok.injEq] at hvalue
  rw [← hvalue]

end Call
end ProtoTypings
