import ProtoTypings.Proofs.ResolveMonad
/-!
# Two runs in lockstep

What a run depends on is shown by a second run beside it, with other settings,
with the files in another order, or with further files. Both start with the
same table of imports, and after every step the tables and the remembered
answers are still the same; only the catalogs differ.

**Comparisons.** A `Comparison` holds two catalogs that agree as far as one
output file is concerned: on the meaning of the texts that it mentions and on
what is hidden from the scopes that it mentions them in. Whether the faults of
the left run have to be those of the right run is a part of the comparison.

**Results.**
* `Comparison.Lockstep`: what the left computation yields is matched by what the
  right one yields. There is one lemma for each way in which computations are
  put together.
* `Comparison.lockstep_path`: the resolvers give the same paths.
-/
namespace ProtoTypings

/-- Three lists of one length, whose elements are related place by place. -/
inductive Forall₃ {α β γ : Type} (R : α → β → γ → Prop) : List α → List β → List γ → Prop
  | nil : Forall₃ R [] [] []
  | cons {x : α} {y : β} {z : γ} {xs : List α} {ys : List β} {zs : List γ} :
      R x y z → Forall₃ R xs ys zs → Forall₃ R (x :: xs) (y :: ys) (z :: zs)

namespace Forall₃

variable {α β γ δ ε : Type} {R : α → β → γ → Prop} {xs : List α} {ys : List β} {zs : List γ}

theorem map_left {f : δ → α} {ws : List δ} (h : Forall₃ (fun w => R (f w)) ws ys zs) :
    Forall₃ R (ws.map f) ys zs := by
  induction h with
  | nil => exact .nil
  | cons hxyz _ ih => exact .cons hxyz ih

/-- Results for the elements of a list with their positions are results for the
elements. -/
theorem of_zipIdx (h : Forall₃ (fun x => R x.1) xs.zipIdx ys zs) : Forall₃ R xs ys zs := by
  rw [← List.zipIdx_map_fst 0 xs]
  exact map_left h

theorem map {S : α → δ → ε → Prop} {f : β → δ} {g : γ → ε} (h : Forall₃ R xs ys zs)
    (hfg : ∀ x y z, R x y z → S x (f y) (g z)) : Forall₃ S xs (ys.map f) (zs.map g) := by
  induction h with
  | nil => exact .nil
  | cons hxyz _ ih => exact .cons (hfg _ _ _ hxyz) ih

/-- What holds of the results for every element. -/
theorem forall₂ {S : β → γ → Prop} (h : Forall₃ R xs ys zs) (hS : ∀ x y z, R x y z → S y z) :
    List.Forall₂ S ys zs := by
  induction h with
  | nil => exact .nil
  | cons hxyz _ ih => exact .cons (hS _ _ _ hxyz) ih

theorem eq_of {R : α → β → β → Prop} {zs : List β} (hR : ∀ x y z, R x y z → z = y)
    (h : Forall₃ R xs ys zs) : zs = ys := by
  induction h with
  | nil => rfl
  | cons hxyz _ ih => rw [hR _ _ _ hxyz, ih]

end Forall₃

/-- What `x` ends with, `y` ends with. Faults count only if `faults` holds. -/
structure Follows {α : Type} (faults : Prop) (x y : Except Fault α) : Prop where
  ok : ∀ a, x = .ok a → y = .ok a
  error : faults → ∀ fault, x = .error fault → y = .error fault

namespace Follows

variable {α β : Type} {faults : Prop}

theorem refl (x : Except Fault α) : Follows faults x x :=
  ⟨fun _ h => h, fun _ _ h => h⟩

theorem bind {x y : Except Fault α} {f g : α → Except Fault β} (h : Follows faults x y)
    (hfg : ∀ a, x = .ok a → Follows faults (f a) (g a)) : Follows faults (x >>= f) (y >>= g) := by
  cases hx : x with
  | error fault =>
    constructor
    · intro b hb
      cases hb
    · intro hfaults fault' hfault
      cases hfault
      rw [h.error hfaults fault hx]
      rfl
  | ok a =>
    rw [h.ok a hx]
    exact hfg a hx

theorem map {x y : Except Fault α} (h : Follows faults x y) (f : α → β) :
    Follows faults (x.map f) (y.map f) := by
  cases hx : x with
  | error fault =>
    constructor
    · intro b hb
      cases hb
    · intro hfaults fault' hfault
      cases hfault
      rw [h.error hfaults fault hx]
      rfl
  | ok a =>
    rw [h.ok a hx]
    exact refl _

end Follows

/-- Two catalogs that agree as far as the declarations of one file are
concerned. -/
structure Comparison where
  /-- The path of the file. -/
  path : String
  left : Catalog
  right : Catalog
  /-- Whether the runs have to fail alike. -/
  faults : Prop
  /-- The texts that are looked up. -/
  texts : String → Prop
  /-- The scopes that they are looked up in. -/
  scopes : String → Prop
  found : ∀ {text scope entry}, texts text → left.resolve? text scope = some entry →
    right.resolve? text scope = some entry
  missed : faults → ∀ {text scope}, texts text → left.resolve? text scope = none →
    right.resolve? text scope = none
  isShadowed_eq : ∀ {entry scope}, entry ∈ left.types → entry.file = path → scopes scope →
    right.isShadowed entry.localName scope = left.isShadowed entry.localName scope
  fields : ∀ {entry m}, entry ∈ left.types → entry.definition = .message m →
    ∀ field ∈ m.fields, texts field.typeName

namespace Comparison

variable (k : Comparison) {α β γ δ : Type}

theorem follows_resolve {text : String} (htext : k.texts text) (scope file context : String) :
    Follows k.faults (k.left.resolve text scope file context)
      (k.right.resolve text scope file context) := by
  unfold Catalog.resolve
  cases h : k.left.resolve? text scope with
  | some entry =>
    rw [k.found htext h]
    exact .refl _
  | none =>
    constructor
    · intro entry hentry
      cases hentry
    · intro hfaults fault hfault
      rw [k.missed hfaults htext h]
      exact hfault

/-- The resolver of the file over the left catalog, and the same one over the
right catalog. -/
structure Paired (r s : Resolver) : Prop where
  file : r.file = k.path
  catalog : r.catalog = k.left
  eq : s = { r with catalog := k.right }

theorem Paired.catalog_right {k : Comparison} {r s : Resolver} (h : k.Paired r s) :
    s.catalog = k.right := by rw [h.eq]

/-- From resolvers that go together, what `x` yields is matched by what `y`
yields, and the resolvers still go together. If faults count, so it is with
faults. -/
structure Lockstep (R : α → β → Prop) (x : ResolveM α) (y : ResolveM β) : Prop where
  yields : ∀ {r s a r'}, k.Paired r s → x.Yields r a r' →
    ∃ b s', y.Yields s b s' ∧ R a b ∧ k.Paired r' s'
  fails : k.faults → ∀ {r s fault r'}, k.Paired r s → x.Fails r fault r' →
    ∃ s', y.Fails s fault s' ∧ k.Paired r' s'

namespace Lockstep

variable {k} {R : α → β → Prop} {R' : γ → δ → Prop}

theorem pure {a : α} {b : β} (h : R a b) : k.Lockstep R (pure a) (pure b) := by
  constructor
  · intro r s a' r' hpaired hyields
    obtain ⟨rfl, rfl⟩ := ResolveM.yields_pure_iff.1 hyields
    exact ⟨b, s, ResolveM.yields_pure_iff.2 ⟨rfl, rfl⟩, h, hpaired⟩
  · intro _ r s fault r' _ hfails
    exact absurd hfails ResolveM.not_fails_pure

theorem bind {x : ResolveM α} {y : ResolveM β} {f : α → ResolveM γ} {g : β → ResolveM δ}
    (h : k.Lockstep R x y) (hfg : ∀ a b, R a b → k.Lockstep R' (f a) (g b)) :
    k.Lockstep R' (x >>= f) (y >>= g) := by
  constructor
  · intro r s c r' hpaired hyields
    obtain ⟨a, next, hx, hf⟩ := ResolveM.yields_bind_iff.1 hyields
    obtain ⟨b, next', hy, hab, hnext⟩ := h.yields hpaired hx
    obtain ⟨d, s', hg, hcd, hlast⟩ := (hfg a b hab).yields hnext hf
    exact ⟨d, s', ResolveM.yields_bind_iff.2 ⟨b, next', hy, hg⟩, hcd, hlast⟩
  · intro hfaults r s fault r' hpaired hfails
    obtain hx | ⟨a, next, hx, hf⟩ := ResolveM.fails_bind_iff.1 hfails
    · obtain ⟨s', hy, hlast⟩ := h.fails hfaults hpaired hx
      exact ⟨s', ResolveM.fails_bind_iff.2 (.inl hy), hlast⟩
    · obtain ⟨b, next', hy, hab, hnext⟩ := h.yields hpaired hx
      obtain ⟨s', hg, hlast⟩ := (hfg a b hab).fails hfaults hnext hf
      exact ⟨s', ResolveM.fails_bind_iff.2 (.inr ⟨b, next', hy, hg⟩), hlast⟩

theorem imp {S : α → β → Prop} {x : ResolveM α} {y : ResolveM β} (h : k.Lockstep R x y)
    (hRS : ∀ a b, R a b → S a b) : k.Lockstep S x y := by
  refine ⟨fun hpaired hyields => ?_, h.fails⟩
  obtain ⟨b, s', hy, hab, hlast⟩ := h.yields hpaired hyields
  exact ⟨b, s', hy, hRS _ b hab, hlast⟩

theorem map {x : ResolveM α} {y : ResolveM β} {f : α → γ} {g : β → δ} (h : k.Lockstep R x y)
    (hfg : ∀ a b, R a b → R' (f a) (g b)) : k.Lockstep R' (f <$> x) (g <$> y) := by
  rw [map_eq_pure_bind, map_eq_pure_bind]
  exact h.bind fun a b hab => .pure (hfg a b hab)

theorem lift {x y : Except Fault α} (h : Follows k.faults x y) :
    k.Lockstep (fun a b => x = .ok a ∧ b = a) (liftM x) (liftM y) := by
  constructor
  · intro r s a r' hpaired hyields
    obtain ⟨hx, rfl⟩ := ResolveM.yields_lift_iff.1 hyields
    exact ⟨a, s, ResolveM.yields_lift_iff.2 ⟨h.ok a hx, rfl⟩, ⟨hx, rfl⟩, hpaired⟩
  · intro hfaults r s fault r' hpaired hfails
    obtain ⟨hx, rfl⟩ := ResolveM.fails_lift_iff.1 hfails
    exact ⟨s, ResolveM.fails_lift_iff.2 ⟨h.error hfaults fault hx, rfl⟩, hpaired⟩

theorem throw (fault : Fault) : k.Lockstep R (throw fault) (throw fault) := by
  constructor
  · intro r s a r' _ hyields
    exact absurd hyields ResolveM.not_yields_throw
  · intro _ r s fault' r' hpaired hfails
    obtain ⟨rfl, rfl⟩ := ResolveM.fails_throw_iff.1 hfails
    exact ⟨s, ResolveM.fails_throw_iff.2 ⟨rfl, rfl⟩, hpaired⟩

theorem get : k.Lockstep k.Paired get get := by
  constructor
  · intro r s a r' hpaired hyields
    obtain ⟨rfl, rfl⟩ := ResolveM.yields_get_iff.1 hyields
    exact ⟨s, s, ResolveM.yields_get_iff.2 ⟨rfl, rfl⟩, hpaired, hpaired⟩
  · intro _ r s fault r' _ hfails
    exact absurd hfails ResolveM.not_fails_get

theorem mapM {R : α → β → γ → Prop} {f : α → ResolveM β} {g : α → ResolveM γ} {xs : List α}
    (h : ∀ x ∈ xs, k.Lockstep (R x) (f x) (g x)) :
    k.Lockstep (Forall₃ R xs) (xs.mapM f) (xs.mapM g) := by
  induction xs with
  | nil =>
    rw [List.mapM_nil, List.mapM_nil]
    exact .pure .nil
  | cons x xs ih =>
    obtain ⟨hx, hxs⟩ := List.forall_mem_cons.1 h
    rw [List.mapM_cons, List.mapM_cons]
    exact hx.bind fun y z hyz => (ih hxs).bind fun ys zs hyzs => .pure (.cons hyz hyzs)

end Lockstep

/-! ## Answers of paired resolvers -/

variable {k} {r s : Resolver}

theorem Paired.refer (h : k.Paired r s) {entry : DeclaredType} (hentry : entry ∈ k.left.types)
    {scope : String} (hscope : k.scopes scope) {reference : Reference} {next : Resolver}
    (hrefer : r.refer entry scope = (reference, next)) :
    ∃ next', s.refer entry scope = (reference, next') ∧ k.Paired next next' := by
  obtain ⟨hfile, hcatalog, rfl⟩ := h
  by_cases hown : entry.file = r.file
  · have hpath : Resolver.localPath { r with catalog := k.right } entry scope =
        r.localPath entry scope := by
      unfold Resolver.localPath
      rw [hcatalog, k.isShadowed_eq hentry (hown.trans hfile) hscope]
    rw [Resolver.refer, if_pos hown] at hrefer
    cases hrefer
    rw [Resolver.refer, if_pos hown, hpath]
    exact ⟨_, rfl, hfile, hcatalog, rfl⟩
  · rw [Resolver.refer, if_neg hown] at hrefer
    cases hrefer
    rw [Resolver.refer, if_neg hown]
    exact ⟨_, rfl, hfile, hcatalog, rfl⟩

theorem Paired.resolve_ok (h : k.Paired r s) {q : Mention} (htext : k.texts q.text)
    (hscope : k.scopes q.scope) {context : String} {reference : Reference} {r' : Resolver}
    (hresolve : r.resolve q.text q.scope context = (.ok reference, r')) :
    ∃ s', s.resolve q.text q.scope context = (.ok reference, s') ∧ k.Paired r' s' := by
  have hknown : s.known = r.known := by rw [h.eq]
  obtain ⟨hhit, rfl⟩ | ⟨hnone, entry, next, htarget, hrefer, rfl⟩ :=
    Resolver.resolve_eq_ok_iff.1 hresolve
  · exact ⟨s, Resolver.resolve_eq_ok_iff.2 (.inl ⟨hknown ▸ hhit, rfl⟩), h⟩
  · have hleft : k.left.resolve? q.text q.scope = some entry := h.catalog ▸ htarget
    obtain ⟨next', hrefer', hnext⟩ := h.refer (Catalog.mem_of_resolve? hleft) hscope hrefer
    have hright : q.target? s.catalog = some entry := by
      rw [h.eq]
      exact k.found htext hleft
    refine ⟨_, Resolver.resolve_eq_ok_iff.2 (.inr ⟨hknown ▸ hnone, entry, next', hright, hrefer',
      rfl⟩), hnext.file, hnext.catalog, ?_⟩
    rw [hnext.eq]
    rfl

theorem Paired.resolve_error (h : k.Paired r s) (hfaults : k.faults) {q : Mention}
    (htext : k.texts q.text) {context : String} {fault : Fault} {r' : Resolver}
    (hresolve : r.resolve q.text q.scope context = (.error fault, r')) :
    s.resolve q.text q.scope context = (.error fault, s) ∧ r' = r := by
  obtain ⟨hnone, htarget, rfl, rfl⟩ := Resolver.resolve_eq_error_iff.1 hresolve
  refine ⟨Resolver.resolve_eq_error_iff.2 ⟨?_, ?_, ?_, rfl⟩, rfl⟩
  · rw [h.eq]
    exact hnone
  · rw [h.eq]
    exact k.missed hfaults htext (h.catalog ▸ htarget)
  · rw [h.eq]

variable (k) in
/-- Paired resolvers give the same path. -/
theorem lockstep_path {text scope : String} (htext : k.texts text) (hscope : k.scopes scope)
    (context : String) :
    k.Lockstep Eq (ResolveM.path text scope context) (ResolveM.path text scope context) := by
  unfold ResolveM.path
  refine Lockstep.bind (R := Eq) ⟨?_, ?_⟩ fun a b hab => .pure (congrArg Reference.path hab)
  · intro r s reference r' hpaired hyields
    obtain ⟨s', hresolve, hlast⟩ := hpaired.resolve_ok (q := ⟨text, scope⟩) htext hscope hyields
    exact ⟨reference, s', hresolve, rfl, hlast⟩
  · intro hfaults r s fault r' hpaired hfails
    obtain ⟨hresolve, rfl⟩ := hpaired.resolve_error hfaults (q := ⟨text, scope⟩) htext hfails
    exact ⟨s, hresolve, hpaired⟩

end Comparison
end ProtoTypings
