import Mathlib.Data.List.Forall2
import ProtoTypings.Proofs.ResolverRun
/-!
# Computations that name types

A computation in `ResolveM` asks the resolver of a file one mention after the
other. Which mentions it makes is stated without its answers.

* `Yields`, `Fails`: a computation ends with a value or with a fault, taking one
  resolver to another. There is one lemma for each way in which computations
  are put together.
* `Asks`: whenever a computation ends with a value, its mentions were the given
  ones.
* `Yielded`: a value was yielded on the way to a resolver.
-/
namespace ProtoTypings

namespace ResolveM

variable {α β : Type}

/-- `x.Yields r a r'`: started with `r`, the computation ends with the value `a`
and leaves `r'`. -/
def Yields (x : ResolveM α) (r : Resolver) (a : α) (r' : Resolver) : Prop :=
  x.run.run r = (.ok a, r')

@[simp] theorem yields_pure_iff {a b : α} {r r' : Resolver} :
    Yields (pure a) r b r' ↔ a = b ∧ r = r' := by
  show ((Except.ok a : Except Fault α), r) = (.ok b, r') ↔ _
  simp

theorem yields_bind_iff {x : ResolveM α} {f : α → ResolveM β} {b : β} {r r' : Resolver} :
    Yields (x >>= f) r b r' ↔ ∃ a next, Yields x r a next ∧ Yields (f a) next b r' := by
  have hbind : (x >>= f).run.run r =
      (ExceptT.bindCont f (x.run.run r).1).run (x.run.run r).2 := rfl
  rw [Yields, hbind]
  constructor
  · intro h
    rcases hx : x.run.run r with ⟨_ | a, next⟩
    · rw [hx] at h
      cases h
    · rw [hx] at h
      exact ⟨a, next, hx, h⟩
  · intro h
    obtain ⟨a, next, hx, hf⟩ := h
    rw [Yields] at hx
    rw [hx]
    exact hf

theorem yields_map_iff {x : ResolveM α} {f : α → β} {b : β} {r r' : Resolver} :
    Yields (f <$> x) r b r' ↔ ∃ a, Yields x r a r' ∧ f a = b := by
  rw [map_eq_pure_bind, yields_bind_iff]
  simp only [yields_pure_iff]
  constructor
  · intro h
    obtain ⟨a, next, hx, rfl, rfl⟩ := h
    exact ⟨a, hx, rfl⟩
  · intro h
    obtain ⟨a, hx, rfl⟩ := h
    exact ⟨a, r', hx, rfl, rfl⟩

theorem yields_get_iff {s r r' : Resolver} :
    Yields (get : ResolveM Resolver) r s r' ↔ r = s ∧ r = r' := by
  show ((Except.ok r : Except Fault Resolver), r) = (.ok s, r') ↔ _
  simp

theorem yields_lift_iff {x : Except Fault α} {a : α} {r r' : Resolver} :
    Yields (liftM x) r a r' ↔ x = .ok a ∧ r = r' := by
  show (x, r) = (.ok a, r') ↔ _
  simp

theorem not_yields_throw {fault : Fault} {a : α} {r r' : Resolver} :
    ¬ Yields (throw fault) r a r' := by
  show ¬ ((Except.error fault : Except Fault α), r) = (.ok a, r')
  simp

theorem yields_path_iff {q : Mention} {context path : String} {r r' : Resolver} :
    Yields (ResolveM.path q.text q.scope context) r path r' ↔
      ∃ reference, r.resolve q.text q.scope context = (.ok reference, r') ∧
        reference.path = path := by
  rw [ResolveM.path, yields_bind_iff]
  simp only [yields_pure_iff]
  constructor
  · intro h
    obtain ⟨reference, next, hresolve, rfl, rfl⟩ := h
    exact ⟨reference, hresolve, rfl⟩
  · intro h
    obtain ⟨reference, hresolve, rfl⟩ := h
    exact ⟨reference, r', hresolve, rfl, rfl⟩

theorem yields_mapM_cons_iff {f : α → ResolveM β} {x : α} {xs : List α} {ys : List β}
    {r r' : Resolver} :
    Yields ((x :: xs).mapM f) r ys r' ↔
      ∃ y next ys', Yields (f x) r y next ∧ Yields (xs.mapM f) next ys' r' ∧ y :: ys' = ys := by
  rw [List.mapM_cons, yields_bind_iff]
  simp only [yields_bind_iff, yields_pure_iff]
  constructor
  · intro h
    obtain ⟨y, next, hy, ys', last, hys, rfl, rfl⟩ := h
    exact ⟨y, next, ys', hy, hys, rfl⟩
  · intro h
    obtain ⟨y, next, ys', hy, hys, rfl⟩ := h
    exact ⟨y, next, hy, ys', r', hys, rfl, rfl⟩

/-! ## Faults -/

/-- `x.Fails r fault r'`: started with `r`, the computation ends with `fault` and
leaves `r'`. -/
def Fails (x : ResolveM α) (r : Resolver) (fault : Fault) (r' : Resolver) : Prop :=
  x.run.run r = (.error fault, r')

theorem yields_or_fails (x : ResolveM α) (r : Resolver) :
    (∃ a r', Yields x r a r') ∨ ∃ fault r', Fails x r fault r' := by
  rcases h : x.run.run r with ⟨fault | a, r'⟩
  · exact .inr ⟨fault, r', h⟩
  · exact .inl ⟨a, r', h⟩

theorem not_fails_pure {a : α} {r r' : Resolver} {fault : Fault} : ¬ Fails (pure a) r fault r' := by
  show ¬ ((Except.ok a : Except Fault α), r) = (.error fault, r')
  simp

theorem not_fails_get {r r' : Resolver} {fault : Fault} :
    ¬ Fails (get : ResolveM Resolver) r fault r' := by
  show ¬ ((Except.ok r : Except Fault Resolver), r) = (.error fault, r')
  simp

theorem fails_bind_iff {x : ResolveM α} {f : α → ResolveM β} {r r' : Resolver} {fault : Fault} :
    Fails (x >>= f) r fault r' ↔
      Fails x r fault r' ∨ ∃ a next, Yields x r a next ∧ Fails (f a) next fault r' := by
  have hbind : (x >>= f).run.run r =
      (ExceptT.bindCont f (x.run.run r).1).run (x.run.run r).2 := rfl
  unfold Fails Yields
  rw [hbind]
  constructor
  · intro h
    rcases hx : x.run.run r with ⟨found | a, next⟩
    · rw [hx] at h
      cases h
      exact .inl rfl
    · rw [hx] at h
      exact .inr ⟨a, next, rfl, h⟩
  · intro h
    obtain hx | ⟨a, next, hx, hf⟩ := h
    · rw [hx]
      rfl
    · rw [hx]
      exact hf

theorem fails_lift_iff {x : Except Fault α} {r r' : Resolver} {fault : Fault} :
    Fails (liftM x) r fault r' ↔ x = .error fault ∧ r = r' := by
  show (x, r) = (.error fault, r') ↔ _
  simp

theorem fails_throw_iff {found fault : Fault} {r r' : Resolver} :
    Fails (throw found : ResolveM α) r fault r' ↔ found = fault ∧ r = r' := by
  show ((Except.error found : Except Fault α), r) = (.error fault, r') ↔ _
  simp

/-! ## Mentions of a computation -/

/-- Whenever the computation ends with a value, it has made the mentions `qs`. -/
def Asks (catalog : Catalog) (qs : List Mention) (x : ResolveM α) : Prop :=
  ∀ r a r', r.catalog = catalog → Yields x r a r' → Resolver.Run r qs r'

section asks
variable {catalog : Catalog}

theorem asks_pure (a : α) : Asks catalog [] (pure a) := by
  intro r b r' _ h
  obtain ⟨-, rfl⟩ := yields_pure_iff.1 h
  exact .nil r

theorem Asks.bind {qs qs' : List Mention} {x : ResolveM α} {f : α → ResolveM β}
    (hx : Asks catalog qs x) (hf : ∀ a, Asks catalog qs' (f a)) :
    Asks catalog (qs ++ qs') (x >>= f) := by
  intro r b r' hr h
  obtain ⟨a, next, h1, h2⟩ := yields_bind_iff.1 h
  have hrun := hx r a next hr h1
  exact hrun.append (hf a next b r' (hrun.extends.catalog.trans hr) h2)

theorem asks_path (q : Mention) (context : String) :
    Asks catalog [q] (ResolveM.path q.text q.scope context) := by
  intro r path r' _ h
  obtain ⟨reference, hresolve, -⟩ := yields_path_iff.1 h
  exact .cons hresolve (.nil r')

theorem asks_mapM {f : α → ResolveM β} {g : α → List Mention} {xs : List α}
    (hf : ∀ x ∈ xs, Asks catalog (g x) (f x)) : Asks catalog (xs.flatMap g) (xs.mapM f) := by
  induction xs with
  | nil =>
    rw [List.mapM_nil]
    exact asks_pure []
  | cons x xs ih =>
    intro r ys r' hr h
    obtain ⟨y, next, ys', hy, hys, -⟩ := yields_mapM_cons_iff.1 h
    have hrun := hf x List.mem_cons_self r y next hr hy
    exact hrun.append (ih (fun x' hx' => hf x' (List.mem_cons_of_mem _ hx')) next ys' r'
      (hrun.extends.catalog.trans hr) hys)

/-- On the way to the resolver `last` the computation has yielded `a`. -/
def Yielded (catalog : Catalog) (last : Resolver) (x : ResolveM α) (a : α) : Prop :=
  ∃ before after : Resolver,
    before.catalog = catalog ∧ Yields x before a after ∧ after.Extends last

theorem Yielded.extends {last last' : Resolver} {x : ResolveM α} {a : α}
    (h : Yielded catalog last x a) (hlast : last.Extends last') : Yielded catalog last' x a := by
  obtain ⟨before, after, hcatalog, hyields, hafter⟩ := h
  exact ⟨before, after, hcatalog, hyields, hafter.trans hlast⟩

/-- What a list of computations yields, each by its own computation. -/
theorem forall₂_of_yields_mapM {f : α → ResolveM β} {g : α → List Mention} {xs : List α}
    (hf : ∀ x ∈ xs, Asks catalog (g x) (f x)) {r r' : Resolver} {ys : List β}
    (hr : r.catalog = catalog) (h : Yields (xs.mapM f) r ys r') :
    List.Forall₂ (fun x y => Yielded catalog r' (f x) y) xs ys := by
  induction xs generalizing r ys with
  | nil =>
    rw [List.mapM_nil, yields_pure_iff] at h
    rw [← h.1]
    exact .nil
  | cons x xs ih =>
    obtain ⟨y, next, ys', hy, hys, rfl⟩ := yields_mapM_cons_iff.1 h
    have hf' : ∀ x' ∈ xs, Asks catalog (g x') (f x') := fun x' hx' =>
      hf x' (List.mem_cons_of_mem _ hx')
    have hnext : next.catalog = catalog :=
      (hf x List.mem_cons_self r y next hr hy).extends.catalog.trans hr
    exact .cons ⟨r, next, hr, hy, (asks_mapM hf' next ys' r' hnext hys).extends⟩
      (ih hf' hnext hys)

end asks
end ResolveM

end ProtoTypings
