import ProtoTypings.Proofs.CatalogLookup
import ProtoTypings.Proofs.ImportTable
import ProtoTypings.Reference.Basic
/-!
# Runs of a resolver

A resolver answers one mention after the other; its table of imports grows and
it remembers what it answered. `Sound` says what holds at every point of a run:
the table is well formed, and each remembered reference is what would be worked
out for it now, with no further effect on the table.

The scopes that were asked about matter for the memory, which stores a scope
and a text as one string. `Sound` therefore carries a property `S` of scopes.

* `resolve_eq_ok_iff`, `resolve_eq_error_iff`: what one answer does, remembered,
  worked out or failed.
* `Run.sound`: a run keeps `Sound`.
* `Run.remembered`: what was asked is remembered at the end.
* `Run.imports_eq`: with scopes free of NUL, the table at the end is the table
  at the start after visits to the files of the targets, in order.
-/
namespace ProtoTypings

/-- A reference as written, and the scope that it stands in. -/
structure Mention where
  text : String
  scope : String
  deriving DecidableEq, Repr

namespace Mention

/-- The name under which the answer to a mention is remembered. -/
def key (q : Mention) : String := Resolver.key q.text q.scope

def target? (catalog : Catalog) (q : Mention) : Option DeclaredType :=
  catalog.resolve? q.text q.scope

theorem toList_key (q : Mention) :
    q.key.toList = q.scope.toList ++ '\x00' :: q.text.toList := by
  simp [key, Resolver.key]

/-- A mention free of NUL shares its key with no other. -/
theorem eq_of_key_eq {q q' : Mention} (hscope : Text.NulFree q.scope) (htext : Text.NulFree q.text)
    (h : q.key = q'.key) : q = q' := by
  rw [← String.toList_inj, toList_key, toList_key] at h
  obtain ⟨h1, -, h2⟩ := (List.append_cons_inj_of_notMem hscope htext).1 h
  cases q
  cases q'
  simp_all [String.toList_inj]

/-- Two mentions whose texts are free of NUL have different keys. -/
theorem eq_of_key_eq_of_text {q q' : Mention} (htext : Text.NulFree q.text)
    (htext' : Text.NulFree q'.text) (h : q.key = q'.key) : q = q' := by
  rw [← String.toList_inj, toList_key, toList_key] at h
  have hsplit := congrArg (Text.splitChars '\x00') h
  rw [Text.splitChars_append_sep, Text.splitChars_append_sep, Text.splitChars_of_notMem htext,
    Text.splitChars_of_notMem htext'] at hsplit
  have hlast := (List.append_inj' hsplit rfl).2
  rw [List.singleton_inj] at hlast
  rw [hlast, List.append_cancel_right_eq] at h
  cases q
  cases q'
  simp_all [String.toList_inj]

end Mention

namespace Resolver

/-! ## One answer -/

/-- Referring to a type does nothing more to a resolver exactly when the type
is in the resolver's own file or its file is imported and marked. -/
theorem refer_eq_self_iff {r : Resolver} (h : r.imports.WellFormed) {entry : DeclaredType}
    {scope : String} {reference : Reference} :
    r.refer entry scope = (reference, r) ↔
      (entry.file = r.file ∧ reference = { path := r.localPath entry scope }) ∨
        entry.file ≠ r.file ∧ ∃ i ∈ r.imports.list, i.file = entry.file ∧ i.used = true ∧
          reference = { path := i.name ++ "." ++ entry.localName, via := some i.name } := by
  by_cases hfile : entry.file = r.file
  · rw [refer, if_pos hfile, Prod.mk.injEq]
    constructor
    · intro heq
      obtain ⟨rfl, -⟩ := heq
      exact .inl ⟨hfile, rfl⟩
    · intro hcase
      obtain ⟨-, rfl⟩ | ⟨hother, -⟩ := hcase
      · exact ⟨rfl, rfl⟩
      · exact absurd hfile hother
  · rw [refer, if_neg hfile]
    constructor
    · intro heq
      obtain ⟨href, hself⟩ := Prod.mk.inj heq
      obtain ⟨i, hi, hifile, hused, hname⟩ := Imports.exists_mem_visit r.imports entry.file
      have himports : r.imports.visit entry.file = r.imports := congrArg Resolver.imports hself
      rw [himports] at hi
      exact .inr ⟨hfile, i, hi, hifile, hused, by rw [← href, hname]⟩
    · intro hcase
      obtain ⟨hown, -⟩ | ⟨-, i, hi, hifile, hused, rfl⟩ := hcase
      · exact absurd hown hfile
      · have himports : (r.imports.add entry.file).markUsed entry.file = r.imports := by
          rw [← hifile]
          exact Imports.visit_of_used h hi hused
        rw [himports, ← hifile, Imports.nameOf_of_mem h hi]

/-- What one answer does: it is remembered already, or it is worked out and
remembered. -/
theorem resolve_eq_ok_iff {r r' : Resolver} {q : Mention} {context : String}
    {reference : Reference} :
    r.resolve q.text q.scope context = (.ok reference, r') ↔
      (r.known.lookup q.key = some reference ∧ r' = r) ∨
        r.known.lookup q.key = none ∧ ∃ entry next, q.target? r.catalog = some entry ∧
          r.refer entry q.scope = (reference, next) ∧ r' = next.remember q.key reference := by
  rw [resolve, ← Mention.key]
  cases hknown : r.known.lookup q.key with
  | some known => simp [eq_comm]
  | none =>
    rw [resolveAnew, Catalog.resolve, ← Mention.target?]
    cases htarget : q.target? r.catalog with
    | none => simp
    | some entry =>
      rcases hrefer : r.refer entry q.scope with ⟨found, next⟩
      simp only [hrefer, Prod.mk.injEq, Except.ok.injEq, Option.some.injEq, reduceCtorEq, false_and,
        true_and, false_or]
      constructor
      · intro heq
        obtain ⟨rfl, rfl⟩ := heq
        exact ⟨entry, next, rfl, hrefer, rfl⟩
      · intro hfound
        obtain ⟨_, _, rfl, heq, rfl⟩ := hfound
        obtain ⟨rfl, rfl⟩ := Prod.mk.inj (hrefer.symm.trans heq)
        exact ⟨rfl, rfl⟩

/-- A mention fails exactly when it is not remembered and means nothing; the
resolver stays as it is. -/
theorem resolve_eq_error_iff {r r' : Resolver} {q : Mention} {context : String} {fault : Fault} :
    r.resolve q.text q.scope context = (.error fault, r') ↔
      r.known.lookup q.key = none ∧ q.target? r.catalog = none ∧
        fault = .unresolvedType q.text r.file context ∧ r' = r := by
  rw [resolve, ← Mention.key]
  cases hknown : r.known.lookup q.key with
  | some known => simp
  | none =>
    rw [resolveAnew, Catalog.resolve, ← Mention.target?]
    cases htarget : q.target? r.catalog with
    | none => simp [eq_comm]
    | some entry => simp

/-! ## Runs -/

/-- `r.Run qs r'`: the mentions `qs` are answered one after the other, none of
them in vain, and leave `r'`. -/
inductive Run : Resolver → List Mention → Resolver → Prop
  | nil (r : Resolver) : Run r [] r
  | cons {r next last : Resolver} {q : Mention} {qs : List Mention} {context : String}
      {reference : Reference} :
      r.resolve q.text q.scope context = (.ok reference, next) → Run next qs last →
      Run r (q :: qs) last

theorem Run.append {r next last : Resolver} {qs qs' : List Mention} (h : Run r qs next)
    (h' : Run next qs' last) : Run r (qs ++ qs') last := by
  induction h with
  | nil => exact h'
  | cons hstep _ ih => exact .cons hstep (ih h')

/-- What stays of a resolver while it answers. -/
structure Extends (r r' : Resolver) : Prop where
  catalog : r'.catalog = r.catalog
  file : r'.file = r.file
  reserved : r'.imports.reserved = r.imports.reserved
  marked : ∀ i ∈ r.imports.list, i.used = true → i ∈ r'.imports.list
  known : ∀ key reference, r.known.lookup key = some reference →
    r'.known.lookup key = some reference

theorem Extends.refl (r : Resolver) : r.Extends r :=
  ⟨rfl, rfl, rfl, fun _ h _ => h, fun _ _ h => h⟩

theorem Extends.trans {r next last : Resolver} (h : r.Extends next) (h' : next.Extends last) :
    r.Extends last :=
  ⟨h'.catalog.trans h.catalog, h'.file.trans h.file, h'.reserved.trans h.reserved,
    fun i hi hused => h'.marked i (h.marked i hi hused) hused,
    fun key reference hknown => h'.known key reference (h.known key reference hknown)⟩

theorem refer_extends {r next : Resolver} {entry : DeclaredType} {scope : String}
    {reference : Reference} (h : r.refer entry scope = (reference, next)) :
    r.Extends next ∧ next.known = r.known := by
  by_cases hfile : entry.file = r.file
  · rw [refer, if_pos hfile] at h
    cases h
    exact ⟨.refl r, rfl⟩
  · rw [refer, if_neg hfile] at h
    cases h
    refine ⟨⟨rfl, rfl, by simp, fun i hi hused => ?_, fun _ _ hknown => hknown⟩, rfl⟩
    exact Imports.mem_visit_of_used hi hused entry.file

theorem lookup_remember (r : Resolver) (key : String) (reference : Reference) :
    (r.remember key reference).known.lookup key = some reference := by
  simp [remember]

theorem remember_extends {r : Resolver} {key : String} (h : r.known.lookup key = none)
    (reference : Reference) : r.Extends (r.remember key reference) := by
  refine ⟨rfl, rfl, rfl, fun _ hi _ => hi, fun other found hknown => ?_⟩
  have hne : other ≠ key := by
    intro heq
    rw [heq, h] at hknown
    cases hknown
  rw [remember, List.lookup_cons, beq_false_of_ne hne]
  exact hknown

/-- An answer is remembered afterwards, and nothing is forgotten. -/
theorem resolve_extends {r r' : Resolver} {q : Mention} {context : String}
    {reference : Reference} (h : r.resolve q.text q.scope context = (.ok reference, r')) :
    r.Extends r' ∧ r'.known.lookup q.key = some reference := by
  obtain ⟨hknown, rfl⟩ | ⟨hnone, entry, next, -, hrefer, rfl⟩ := resolve_eq_ok_iff.1 h
  · exact ⟨.refl _, hknown⟩
  · obtain ⟨hext, hsame⟩ := refer_extends hrefer
    rw [← hsame] at hnone
    exact ⟨hext.trans (remember_extends hnone reference), lookup_remember next q.key reference⟩

theorem Run.extends {r r' : Resolver} {qs : List Mention} (h : Run r qs r') : r.Extends r' := by
  induction h with
  | nil r => exact .refl r
  | cons hstep _ ih => exact (resolve_extends hstep).1.trans ih

/-! ## What holds throughout a run -/

/-- The table is well formed, and every remembered reference answers a mention
from a scope with `S`: what the mention means is referred to in this way, and
referring to it once more changes nothing. -/
structure Sound (S : String → Prop) (r : Resolver) : Prop where
  imports : r.imports.WellFormed
  known : ∀ key reference, r.known.lookup key = some reference →
    ∃ (q : Mention) (entry : DeclaredType), S q.scope ∧ q.key = key ∧
      q.target? r.catalog = some entry ∧ r.refer entry q.scope = (reference, r)

theorem localPath_extends {r r' : Resolver} (h : r.Extends r') (entry : DeclaredType)
    (scope : String) : r'.localPath entry scope = r.localPath entry scope := by
  rw [localPath, localPath, h.catalog]

/-- A reference that is settled stays settled. -/
theorem Extends.refer_eq_self {r r' : Resolver} (h : r.Extends r') (hr : r.imports.WellFormed)
    (hr' : r'.imports.WellFormed) {entry : DeclaredType} {scope : String} {reference : Reference}
    (hself : r.refer entry scope = (reference, r)) : r'.refer entry scope = (reference, r') := by
  rw [refer_eq_self_iff hr']
  rw [refer_eq_self_iff hr] at hself
  rw [localPath_extends h, h.file]
  obtain hown | ⟨hother, i, hi, hifile, hused, href⟩ := hself
  · exact .inl hown
  · exact .inr ⟨hother, i, h.marked i hi hused, hifile, hused, href⟩

theorem refer_wellFormed {r next : Resolver} (hr : r.imports.WellFormed) {entry : DeclaredType}
    {scope : String} {reference : Reference} (h : r.refer entry scope = (reference, next)) :
    next.imports.WellFormed := by
  rw [refer] at h
  split at h
  · cases h
    exact hr
  · cases h
    exact hr.visit entry.file

/-- Right after a type is referred to, the reference is settled. -/
theorem refer_settles {r next : Resolver} (hr : r.imports.WellFormed) {entry : DeclaredType}
    {scope : String} {reference : Reference} (h : r.refer entry scope = (reference, next)) :
    next.refer entry scope = (reference, next) := by
  have hnext := refer_wellFormed hr h
  rw [refer_eq_self_iff hnext]
  by_cases hfile : entry.file = r.file
  · rw [refer, if_pos hfile] at h
    cases h
    exact .inl ⟨hfile, rfl⟩
  · rw [refer, if_neg hfile] at h
    cases h
    obtain ⟨i, hi, hifile, hused, hname⟩ := Imports.exists_mem_visit r.imports entry.file
    exact .inr ⟨hfile, i, hi, hifile, hused, by rw [hname]⟩

/-- Referring to a type keeps what is remembered settled. -/
theorem refer_sound {S : String → Prop} {r next : Resolver} (hr : r.Sound S)
    {entry : DeclaredType} {scope : String} {reference : Reference}
    (h : r.refer entry scope = (reference, next)) : next.Sound S := by
  obtain ⟨hext, hsame⟩ := refer_extends h
  have hnext := refer_wellFormed hr.imports h
  refine ⟨hnext, fun key found hknown => ?_⟩
  rw [hsame] at hknown
  obtain ⟨q, other, hS, hkey, htarget, hself⟩ := hr.known key found hknown
  exact ⟨q, other, hS, hkey, by rw [hext.catalog]; exact htarget,
    hext.refer_eq_self hr.imports hnext hself⟩

/-- A settled reference may be remembered. -/
theorem remember_sound {S : String → Prop} {r : Resolver} (hr : r.Sound S) {q : Mention}
    (hS : S q.scope) (hnone : r.known.lookup q.key = none) {entry : DeclaredType}
    {reference : Reference} (htarget : q.target? r.catalog = some entry)
    (hself : r.refer entry q.scope = (reference, r)) : (r.remember q.key reference).Sound S := by
  have hext : r.Extends (r.remember q.key reference) := remember_extends hnone reference
  refine ⟨hr.imports, fun key found hknown => ?_⟩
  by_cases hkey : key = q.key
  · subst hkey
    rw [lookup_remember] at hknown
    cases hknown
    exact ⟨q, entry, hS, rfl, htarget, hext.refer_eq_self hr.imports hr.imports hself⟩
  · rw [remember, List.lookup_cons, beq_false_of_ne hkey] at hknown
    obtain ⟨q', other, hS', hkey', htarget', hself'⟩ := hr.known key found hknown
    exact ⟨q', other, hS', hkey', htarget', hext.refer_eq_self hr.imports hr.imports hself'⟩

theorem resolve_sound {S : String → Prop} {r r' : Resolver} (hr : r.Sound S) {q : Mention}
    (hS : S q.scope) {context : String} {reference : Reference}
    (h : r.resolve q.text q.scope context = (.ok reference, r')) : r'.Sound S := by
  obtain ⟨-, rfl⟩ | ⟨hnone, entry, next, htarget, hrefer, rfl⟩ := resolve_eq_ok_iff.1 h
  · exact hr
  · obtain ⟨hext, hsame⟩ := refer_extends hrefer
    exact remember_sound (refer_sound hr hrefer) hS (hsame ▸ hnone)
      (by rw [hext.catalog]; exact htarget) (refer_settles hr.imports hrefer)

theorem Run.sound {S : String → Prop} {r r' : Resolver} {qs : List Mention} (h : Run r qs r')
    (hr : r.Sound S) (hS : ∀ q ∈ qs, S q.scope) : r'.Sound S := by
  induction h with
  | nil => exact hr
  | cons hstep _ ih =>
    exact ih (resolve_sound hr (hS _ List.mem_cons_self) hstep)
      fun q hq => hS q (List.mem_cons_of_mem _ hq)

/-- What was asked is remembered at the end of a run. -/
theorem Run.remembered {r r' : Resolver} {qs : List Mention} (h : Run r qs r') :
    ∀ q ∈ qs, ∃ reference, r'.known.lookup q.key = some reference := by
  induction h with
  | nil => exact List.forall_mem_nil _
  | cons hstep hrun ih =>
    refine List.forall_mem_cons.2 ⟨?_, ih⟩
    exact ⟨_, hrun.extends.known _ _ (resolve_extends hstep).2⟩

/-! ## Names without NUL -/

/-- No full name of a catalog has a NUL. -/
def NulFreeCatalog (catalog : Catalog) : Prop :=
  ∀ entry ∈ catalog.types, Text.NulFree entry.fullName

theorem nulFreeCatalog_of_files {files : List File} {catalog : Catalog}
    (h : Catalog.ofFiles files = .ok catalog) (hfiles : ∀ file ∈ files, file.NulFree) :
    NulFreeCatalog catalog :=
  Catalog.forall_types h fun file hfile _ hentry => (hfiles file hfile).fullName hentry

/-- A remembered answer was worked out for a mention with the same key. If the
mention at hand means anything, it means that too. -/
theorem Sound.known_unique {S : String → Prop} {r : Resolver} (h : r.Sound S)
    (hnames : NulFreeCatalog r.catalog) {q : Mention} {reference : Reference}
    (hknown : r.known.lookup q.key = some reference) :
    ∃ entry scope, entry ∈ r.catalog.types ∧ (∀ e, q.target? r.catalog = some e → e = entry) ∧
      r.refer entry scope = (reference, r) := by
  obtain ⟨q', entry, -, hkey, htarget, hself⟩ := h.known q.key reference hknown
  refine ⟨entry, q'.scope, Catalog.mem_of_resolve? htarget, fun e he => ?_, hself⟩
  -- texts that mean something have no NUL, so the last NUL of the key ends the scope
  have hsame : q = q' :=
    Mention.eq_of_key_eq_of_text (Catalog.nulFree_of_resolve? hnames he)
      (Catalog.nulFree_of_resolve? hnames htarget) hkey.symm
  rw [← hsame, he] at htarget
  exact Option.some.inj htarget

/-- While all scopes are free of NUL, a remembered answer is that to the mention
at hand. -/
theorem Sound.known_target {r : Resolver} (h : r.Sound Text.NulFree)
    (hnames : NulFreeCatalog r.catalog) {q : Mention} {reference : Reference}
    (hknown : r.known.lookup q.key = some reference) :
    ∃ entry, q.target? r.catalog = some entry ∧ r.refer entry q.scope = (reference, r) := by
  obtain ⟨q', entry, hscope, hkey, htarget, hself⟩ := h.known q.key reference hknown
  have hsame : q' = q :=
    Mention.eq_of_key_eq hscope (Catalog.nulFree_of_resolve? hnames htarget) hkey
  subst hsame
  exact ⟨entry, htarget, hself⟩

/-- The other files that mentions lead to, in order. -/
def visited (catalog : Catalog) (file : String) (qs : List Mention) : List String :=
  (qs.filterMap fun q => (q.target? catalog).map (·.file)).filter (· ≠ file)

theorem visited_cons {catalog : Catalog} {q : Mention} {entry : DeclaredType}
    (h : q.target? catalog = some entry) (file : String) (qs : List Mention) :
    visited catalog file (q :: qs) =
      if entry.file = file then visited catalog file qs
      else entry.file :: visited catalog file qs := by
  rw [visited, List.filterMap_cons_some (b := entry.file) (by simp [h])]
  by_cases hfile : entry.file = file
  · rw [if_pos hfile, List.filter_cons_of_neg (by simpa using hfile)]
    rfl
  · rw [if_neg hfile, List.filter_cons_of_pos (by simpa using hfile)]
    rfl

theorem refer_imports {r next : Resolver} {entry : DeclaredType} {scope : String}
    {reference : Reference} (h : r.refer entry scope = (reference, next)) :
    next.imports = if entry.file = r.file then r.imports else r.imports.visit entry.file := by
  rw [refer] at h
  split at h
  · next hfile =>
    cases h
    rw [if_pos hfile]
  · next hfile =>
    cases h
    rw [if_neg hfile]
    rfl

/-- One answer visits the file of its target, if that is another file. -/
theorem resolve_imports {r r' : Resolver} (hr : r.Sound Text.NulFree)
    (hnames : NulFreeCatalog r.catalog) {q : Mention} {context : String} {reference : Reference}
    (h : r.resolve q.text q.scope context = (.ok reference, r')) :
    ∃ entry, q.target? r.catalog = some entry ∧
      r'.imports = if entry.file = r.file then r.imports else r.imports.visit entry.file := by
  obtain ⟨hknown, rfl⟩ | ⟨-, entry, next, htarget, hrefer, rfl⟩ := resolve_eq_ok_iff.1 h
  · obtain ⟨entry, htarget, hself⟩ := hr.known_target hnames hknown
    exact ⟨entry, htarget, refer_imports hself⟩
  · refine ⟨entry, htarget, ?_⟩
    show next.imports = _
    exact refer_imports hrefer

/-- **The table after a run.** Every mention means something, and the table is
what visits to the files of the targets make of it, in the order of the
mentions. -/
theorem Run.imports_eq {r r' : Resolver} {qs : List Mention} (h : Run r qs r')
    (hr : r.Sound Text.NulFree) (hnames : NulFreeCatalog r.catalog)
    (hscopes : ∀ q ∈ qs, Text.NulFree q.scope) :
    r'.imports = r.imports.visitAll (visited r.catalog r.file qs) ∧
      ∀ q ∈ qs, ∃ entry, q.target? r.catalog = some entry := by
  induction h with
  | nil => exact ⟨rfl, List.forall_mem_nil _⟩
  | @cons r next last q qs context reference hstep _ ih =>
    obtain ⟨hext, -⟩ := resolve_extends hstep
    have hscope := hscopes q List.mem_cons_self
    obtain ⟨entry, htarget, himports⟩ := resolve_imports hr hnames hstep
    obtain ⟨ihimports, ihtargets⟩ := ih (resolve_sound hr hscope hstep)
      (by rw [hext.catalog]; exact hnames) fun q' hq' => hscopes q' (List.mem_cons_of_mem _ hq')
    rw [hext.catalog] at ihtargets
    refine ⟨?_, List.forall_mem_cons.2 ⟨⟨entry, htarget⟩, ihtargets⟩⟩
    rw [ihimports, hext.catalog, hext.file, himports, visited_cons htarget]
    split <;> rfl

/-! ## The start of a run -/

theorem ofFile_eq {catalog : Catalog} {path : String} {file : File}
    (h : catalog.file? path = some file) :
    ofFile catalog path =
      { catalog := catalog, file := path
        imports := Imports.addAll { reserved := reserved file } file.dependencies } := by
  rw [ofFile, h]

theorem sound_ofFile (S : String → Prop) (catalog : Catalog) (path : String) :
    (ofFile catalog path).Sound S := by
  have hempty (names : List String) : ({ reserved := names } : Imports).WellFormed :=
    ⟨List.nodup_nil, List.nodup_nil, List.forall_mem_nil _, List.forall_mem_nil _⟩
  refine ⟨?_, fun key reference hknown => by simp [ofFile] at hknown⟩
  rw [ofFile]
  split
  · exact (hempty _).addAll _
  · exact hempty []

end Resolver
end ProtoTypings
