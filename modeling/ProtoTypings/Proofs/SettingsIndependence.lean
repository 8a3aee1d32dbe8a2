import ProtoTypings.Proofs.TypingLockstep
/-!
# What the settings decide

The declaration file of one protobuf file under two settings. Settings reach
the names of properties and operations, the type of 64-bit integers and the
form of streams. They do not reach any lookup, any path, any import or any
check, so they decide nothing about success, and what they do decide can be
told from the descriptors.

**Results.**
* `Catalog.typings_eq_of_typeAlike`: the style of enums, the keyword of packages
  and the indentation are left to the printer.
* `Catalog.output_counterpart`: the whole comparison of two settings.
-/
namespace ProtoTypings

theorem Settings.TypeAlike.refl (a : Settings) : a.TypeAlike a := ⟨rfl, rfl, rfl⟩

namespace Catalog

theorem SameTypes.refl (catalog : Catalog) : catalog.SameTypes catalog := fun _ => rfl

theorem output_eq_map (catalog : Catalog) (settings : Settings) (path : String) :
    catalog.output settings path = (catalog.typings settings path).map fun t =>
      { source := path, name := Output.nameFor path, content := t.render settings } := by
  unfold output
  cases catalog.typings settings path with
  | error fault => rfl
  | ok t => rfl

/-- Settings that differ in nothing but what the printer reads make the same
contents or the same fault. -/
theorem typings_eq_of_typeAlike (catalog : Catalog) (path : String) {a b : Settings}
    (h : a.TypeAlike b) : catalog.typings b path = catalog.typings a path := by
  obtain ⟨fault, hfault, hfault'⟩ | ⟨file, t, t', -, ht, ht', hcounterpart⟩ :=
    (SameTypes.refl catalog).typings_lockstep path rfl a b
  · rw [hfault, hfault']
  · rw [ht, ht', hcounterpart.eq h]

/-- **What the settings decide.** Under any two settings the same faults end a
run. Without a fault the imports are the same, with their names, order and marks,
and the outlines have the same items in the same scopes. Properties and
operations have the names of their fields and methods in the casing of the
settings, 64-bit integers and streams have the form that the settings choose, and
everything else is the same. The contents do not depend on what only the printer
reads. -/
theorem output_counterpart (catalog : Catalog) (path : String) (a b : Settings) :
    ((∃ fault, catalog.output a path = .error fault ∧ catalog.output b path = .error fault) ∨
      ∃ file t t', catalog.file? path = some file ∧
        catalog.typings a path = .ok t ∧ catalog.typings b path = .ok t' ∧
        catalog.output a path = .ok ⟨path, Output.nameFor path, t.render a⟩ ∧
        catalog.output b path = .ok ⟨path, Output.nameFor path, t'.render b⟩ ∧
        Typings.Counterpart catalog file a b t t') ∧
    ∀ style declare indent,
      catalog.typings
        { a with enumStyle := style, declareNamespace := declare, indent := indent } path =
        catalog.typings a path := by
  refine ⟨?_, fun _ _ _ => catalog.typings_eq_of_typeAlike path ⟨rfl, rfl, rfl⟩⟩
  rw [output_eq_map, output_eq_map]
  obtain ⟨fault, hfault, hfault'⟩ | ⟨file, t, t', hfile, ht, ht', hcounterpart⟩ :=
    (SameTypes.refl catalog).typings_lockstep path rfl a b
  · rw [hfault, hfault']
    exact .inl ⟨fault, rfl, rfl⟩
  · rw [ht, ht']
    exact .inr ⟨file, t, t', hfile, rfl, rfl, rfl, rfl, hcounterpart⟩

end Catalog
end ProtoTypings
