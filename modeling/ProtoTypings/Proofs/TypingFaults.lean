import ProtoTypings.Proofs.Counterparts
/-!
# Faults of typing

Typing a file looks at its messages depth first and then at its services. It
fails only where the type of a field or of a method cannot be told, so every
fault of the whole is the fault of one of them.

**Results.**
* `ResolveM.failed_mapM`: a list of computations fails where one of them does.
* `Message.failed_typing`, `Service.failed_typing`, `File.failed_typing`: the
  field or the method that a fault comes from.
* `File.isTypeFault_of_fails`: such a fault is about a type.
* `File.Typable.yields`: if every field and method can be typed, so can the file.
-/
namespace ProtoTypings

namespace ResolveM

variable {α β : Type} {catalog : Catalog} {fault : Fault}

/-- Some resolver of the catalog makes the computation end with `fault`. -/
def Failed (catalog : Catalog) (x : ResolveM α) (fault : Fault) : Prop :=
  ∃ before after : Resolver, before.catalog = catalog ∧ Fails x before fault after

theorem not_failed_pure (a : α) : ¬ Failed catalog (pure a) fault := by
  intro h
  obtain ⟨before, after, -, hfails⟩ := h
  exact not_fails_pure hfails

/-- A fault of two computations comes from the first, or from the second after
the first has ended with a value. -/
theorem Failed.of_bind {qs : List Mention} {x : ResolveM α} {f : α → ResolveM β}
    (hx : Asks catalog qs x) (h : Failed catalog (x >>= f) fault) :
    Failed catalog x fault ∨ ∃ a, Failed catalog (f a) fault := by
  obtain ⟨before, after, hbefore, hfails⟩ := h
  obtain hfirst | ⟨a, next, hyields, hsecond⟩ := fails_bind_iff.1 hfails
  · exact .inl ⟨before, after, hbefore, hfirst⟩
  · have hnext : next.catalog = catalog :=
      (hx before a next hbefore hyields).extends.catalog.trans hbefore
    exact .inr ⟨a, next, after, hnext, hsecond⟩

/-- What is done with a value at the end does not fail. -/
theorem Failed.of_bind_pure {x : ResolveM α} {f : α → β}
    (h : Failed catalog (x >>= fun a => pure (f a)) fault) : Failed catalog x fault := by
  obtain ⟨before, after, hbefore, hfails⟩ := h
  obtain hfirst | ⟨a, next, -, hsecond⟩ := fails_bind_iff.1 hfails
  · exact ⟨before, after, hbefore, hfirst⟩
  · exact absurd hsecond not_fails_pure

theorem failed_mapM {f : α → ResolveM β} {g : α → List Mention} {xs : List α}
    (hf : ∀ x ∈ xs, Asks catalog (g x) (f x)) (h : Failed catalog (xs.mapM f) fault) :
    ∃ x ∈ xs, Failed catalog (f x) fault := by
  induction xs with
  | nil =>
    rw [List.mapM_nil] at h
    exact absurd h (not_failed_pure [])
  | cons x xs ih =>
    obtain ⟨hx, hxs⟩ := List.forall_mem_cons.1 hf
    rw [List.mapM_cons] at h
    obtain hfirst | ⟨y, hrest⟩ := h.of_bind hx
    · exact ⟨x, List.mem_cons_self, hfirst⟩
    · obtain ⟨x', hx', hfailed⟩ := ih hxs hrest.of_bind_pure
      exact ⟨x', List.mem_cons_of_mem _ hx', hfailed⟩

/-- The computation ends with a value, whatever was asked before. -/
def Succeeds (catalog : Catalog) (x : ResolveM α) : Prop :=
  ∀ before, before.catalog = catalog → ∃ a after, Yields x before a after

theorem Succeeds.not_failed {x : ResolveM α} (h : Succeeds catalog x) :
    ¬ Failed catalog x fault := by
  intro hfailed
  obtain ⟨before, after, hbefore, hfails⟩ := hfailed
  obtain ⟨a, after', hyields⟩ := h before hbefore
  unfold Fails at hfails
  unfold Yields at hyields
  rw [hyields] at hfails
  cases hfails

end ResolveM

/-! ## Where a fault comes from -/

section blame
variable {context : TypingContext} {catalog : Catalog} {fault : Fault}

theorem Message.failed_typing (m : Message) :
    ∀ outer path, ResolveM.Failed catalog (m.typing context outer path) fault →
      ∃ s ∈ m.withScopes outer, ∃ field ∈ s.2.fields,
        ResolveM.Failed catalog (field.typing context.settings ⟨s.1, context.file⟩) fault := by
  induction m using Message.nested_induction with
  | step m ih =>
    intro outer path h
    rw [Message.typing_eq] at h
    obtain hfields | ⟨properties, hrest⟩ :=
      h.of_bind (ResolveM.asks_mapM fun _ _ => Field.asks_property)
    · obtain ⟨⟨field, index⟩, hfield, hfailed⟩ :=
        ResolveM.failed_mapM (fun _ _ => Field.asks_property) hfields
      refine ⟨(Dotted.join outer m.name, m), ?_, field, List.fst_mem_of_mem_zipIdx hfield,
        hfailed.of_bind_pure⟩
      rw [Message.withScopes_eq]
      exact List.mem_cons_self
    · obtain ⟨⟨n, index⟩, hn, hfailed⟩ := ResolveM.failed_mapM
        (fun n _ => Message.asks_flaggedTyping (Message.asks_typing n.1 _ _)) hrest.of_bind_pure
      have hmem := List.fst_mem_of_mem_zipIdx hn
      obtain ⟨s, hs, field, hfield, hfault⟩ := ih n hmem _ _ hfailed.of_bind_pure
      refine ⟨s, ?_, field, hfield, hfault⟩
      rw [Message.withScopes_eq]
      exact List.mem_cons_of_mem _ (List.mem_flatMap.2 ⟨n, hmem, hs⟩)

theorem Service.failed_typing {package : String} {path : List Int32} {service : Service}
    (h : ResolveM.Failed catalog (service.typing context package path) fault) :
    ∃ method ∈ service.methods, ResolveM.Failed catalog
      (method.callType context.settings (Dotted.join package service.name)) fault := by
  obtain ⟨⟨method, index⟩, hmethod, hfailed⟩ := ResolveM.failed_mapM (fun method _ =>
    Method.asks_operation package service path method.1 method.2) h.of_bind_pure
  exact ⟨method, List.fst_mem_of_mem_zipIdx hmethod, hfailed.of_bind_pure⟩

/-- **A fault of typing a file** is the fault of one of its fields or methods. -/
theorem File.failed_typing {settings : Settings} {file : File}
    (h : ResolveM.Failed catalog (file.typing settings) fault) :
    (∃ s ∈ file.withScopes, ∃ field ∈ s.2.fields,
      ResolveM.Failed catalog (field.typing settings ⟨s.1, file.path⟩) fault) ∨
    ∃ service ∈ file.services, ∃ method ∈ service.methods, ResolveM.Failed catalog
      (method.callType settings (Dotted.join file.packageName service.name)) fault := by
  obtain hmessages | ⟨messages, hservices⟩ := h.of_bind (File.asks_messages settings file)
  · rw [Message.allTypings_eq_mapM] at hmessages
    obtain ⟨⟨m, index⟩, hm, hfailed⟩ := ResolveM.failed_mapM
      (fun m _ => Message.asks_flaggedTyping (Message.asks_typing m.1 _ _)) hmessages
    obtain ⟨s, hs, hfault⟩ := m.failed_typing _ _ hfailed.of_bind_pure
    refine .inl ⟨s, ?_, hfault⟩
    rw [File.withScopes, Message.allWithScopes_eq_flatMap]
    exact List.mem_flatMap.2 ⟨m, List.fst_mem_of_mem_zipIdx hm, hs⟩
  · obtain ⟨⟨service, index⟩, hservice, hfailed⟩ := ResolveM.failed_mapM
      (fun service _ => Service.asks_typing file.packageName _ service.1) hservices.of_bind_pure
    exact .inr ⟨service, List.fst_mem_of_mem_zipIdx hservice, Service.failed_typing hfailed⟩

end blame

/-! ## Faults about types -/

/-- Whether a fault is about the type of a field or of a method. -/
def Fault.IsTypeFault : Fault → Prop
  | unresolvedType .. | unsupportedField .. => True
  | _ => False

theorem Catalog.isTypeFault_of_resolve {catalog : Catalog} {text scope file context : String}
    {fault : Fault} (h : catalog.resolve text scope file context = .error fault) :
    fault.IsTypeFault := by
  unfold Catalog.resolve at h
  split at h
  · cases h
  · cases h
    trivial

theorem ResolveM.isTypeFault_of_path {text scope context : String} {fault : Fault}
    {r r' : Resolver} (h : (ResolveM.path text scope context).Fails r fault r') :
    fault.IsTypeFault := by
  obtain hresolve | ⟨reference, next, -, hpure⟩ := ResolveM.fails_bind_iff.1 h
  · obtain ⟨-, -, rfl, -⟩ := (Resolver.resolve_eq_error_iff (q := ⟨text, scope⟩)).1 hresolve
    trivial
  · exact absurd hpure ResolveM.not_fails_pure

namespace Field

variable {catalog : Catalog} {settings : Settings} {site : FieldSite} {field : Field}
  {fault : Fault} {r r' : Resolver}

theorem isTypeFault_of_kind (h : field.kind catalog site = .error fault) : fault.IsTypeFault := by
  unfold kind at h
  split at h
  · split at h
    · cases h
    · cases h
      trivial
  · split at h
    · cases h
      trivial
    · cases htarget : field.target catalog site with
      | error found =>
        rw [htarget] at h
        cases h
        exact Catalog.isTypeFault_of_resolve htarget
      | ok entry =>
        rw [htarget] at h
        cases h

theorem isTypeFault_of_mapEntry? (h : field.mapEntry? catalog site = .error fault) :
    fault.IsTypeFault := by
  unfold mapEntry? at h
  split at h
  · cases hkind : field.kind catalog site with
    | error found =>
      rw [hkind] at h
      cases h
      exact isTypeFault_of_kind hkind
    | ok kind =>
      simp only [hkind, bind, Except.bind] at h
      split at h
      · cases htarget : field.target catalog site with
        | error found =>
          rw [htarget] at h
          cases h
          exact Catalog.isTypeFault_of_resolve htarget
        | ok entry =>
          rw [htarget] at h
          cases h
      · cases h
  · cases h

theorem isTypeFault_of_entryValue {entry : Message}
    (h : field.entryValue site entry = .error fault) : fault.IsTypeFault := by
  unfold entryValue at h
  split at h
  · cases h
    trivial
  · split at h
    · cases h
    · cases h
      trivial

theorem isTypeFault_of_valueOfKind {kind : FieldType}
    (h : (field.valueOfKind settings site kind).Fails r fault r') : fault.IsTypeFault := by
  cases kind with
  | enum | message | group =>
    simp only [valueOfKind, map_eq_pure_bind] at h
    obtain hpath | ⟨path, next, -, hpure⟩ := ResolveM.fails_bind_iff.1 h
    · unfold namedPath at hpath
      split at hpath
      · obtain ⟨rfl, -⟩ := ResolveM.fails_throw_iff.1 hpath
        trivial
      · exact ResolveM.isTypeFault_of_path hpath
    · exact absurd hpure ResolveM.not_fails_pure
  | _ => exact absurd h ResolveM.not_fails_pure

theorem isTypeFault_of_value (h : (field.value settings site).Fails r fault r') :
    fault.IsTypeFault := by
  unfold value at h
  obtain hget | ⟨s, next, -, h⟩ := ResolveM.fails_bind_iff.1 h
  · exact absurd hget ResolveM.not_fails_get
  · obtain hkind | ⟨kind, next', -, h⟩ := ResolveM.fails_bind_iff.1 h
    · exact isTypeFault_of_kind (ResolveM.fails_lift_iff.1 hkind).1
    · exact isTypeFault_of_valueOfKind h

theorem isTypeFault_of_typing (h : (field.typing settings site).Fails r fault r') :
    fault.IsTypeFault := by
  unfold Field.typing at h
  obtain hget | ⟨s, next, -, h⟩ := ResolveM.fails_bind_iff.1 h
  · exact absurd hget ResolveM.not_fails_get
  · obtain hentry | ⟨found, next', -, h⟩ := ResolveM.fails_bind_iff.1 h
    · exact isTypeFault_of_mapEntry? (ResolveM.fails_lift_iff.1 hentry).1
    · cases found with
      | none =>
        simp only [map_eq_pure_bind] at h
        obtain hvalue | ⟨type, next'', -, hpure⟩ := ResolveM.fails_bind_iff.1 h
        · exact isTypeFault_of_value hvalue
        · exact absurd hpure ResolveM.not_fails_pure
      | some found =>
        obtain ⟨entry, message⟩ := found
        obtain hentryValue | ⟨value, next'', -, h⟩ := ResolveM.fails_bind_iff.1 h
        · exact isTypeFault_of_entryValue (ResolveM.fails_lift_iff.1 hentryValue).1
        · obtain hvalue | ⟨type, next''', -, hpure⟩ := ResolveM.fails_bind_iff.1 h
          · exact isTypeFault_of_value hvalue
          · exact absurd hpure ResolveM.not_fails_pure

end Field

theorem Method.isTypeFault_of_callType {settings : Settings} {service : String} {method : Method}
    {fault : Fault} {r r' : Resolver} (h : (method.callType settings service).Fails r fault r') :
    fault.IsTypeFault := by
  unfold Method.callType at h
  obtain hinput | ⟨input, next, -, h⟩ := ResolveM.fails_bind_iff.1 h
  · exact ResolveM.isTypeFault_of_path hinput
  · obtain houtput | ⟨output, next', -, hpure⟩ := ResolveM.fails_bind_iff.1 h
    · exact ResolveM.isTypeFault_of_path houtput
    · exact absurd hpure ResolveM.not_fails_pure

namespace File

variable {settings : Settings} {file : File} {r : Resolver}

/-- Typing a file ends with no fault that is not about a type. -/
theorem isTypeFault_of_fails {fault : Fault} {r' : Resolver}
    (h : (file.typing settings).Fails r fault r') : fault.IsTypeFault := by
  obtain ⟨s, -, field, -, before, after, -, hfails⟩ |
    ⟨service, -, method, -, before, after, -, hfails⟩ := File.failed_typing ⟨r, r', rfl, h⟩
  · exact Field.isTypeFault_of_typing hfails
  · exact Method.isTypeFault_of_callType hfails

/-- Every field and every method of a file can be typed, whatever was asked
before. -/
structure Typable (settings : Settings) (catalog : Catalog) (file : File) : Prop where
  fields : ∀ s ∈ file.withScopes, ∀ field ∈ s.2.fields,
    ResolveM.Succeeds catalog (field.typing settings ⟨s.1, file.path⟩)
  methods : ∀ service ∈ file.services, ∀ method ∈ service.methods,
    ResolveM.Succeeds catalog
      (method.callType settings (Dotted.join file.packageName service.name))

theorem Typable.yields (h : file.Typable settings r.catalog) :
    ∃ typing last, (file.typing settings).Yields r typing last := by
  obtain hyields | ⟨fault, last, hfails⟩ := ResolveM.yields_or_fails (file.typing settings) r
  · exact hyields
  · obtain ⟨s, hs, field, hfield, hfailed⟩ | ⟨service, hservice, method, hmethod, hfailed⟩ :=
      File.failed_typing ⟨r, last, rfl, hfails⟩
    · exact absurd hfailed (h.fields s hs field hfield).not_failed
    · exact absurd hfailed (h.methods service hservice method hmethod).not_failed

end File
end ProtoTypings
