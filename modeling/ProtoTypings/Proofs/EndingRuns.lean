import ProtoTypings.Proofs.EnclosingSearch
import ProtoTypings.Proofs.FailedFields
import ProtoTypings.Proofs.TypingLockstep
/-!
# Runs that end

Naming a type takes a search through the messages around the place, if the type is in the
same file and that has a package. Where a message has the empty full name such a search
may go on for ever, and the run with it. Everything else ends.

**Searches.** `catalog.workedOut settings path` are the mentions that are worked out when a
file is typed. What was asked before is remembered and not worked out again, and a fault
ends the typing. The run ends if the search for each of them does.

**Runs.** `Generates settings files request result`: the run ends, with `result`. All
requested files are typed before the first fault counts, so each of them has to end.

**Results.**
* `ResolveM.AsksUpTo`: which mentions a computation has made, however it ended.
* `Catalog.map_key_workedOut`: what is worked out is what is remembered in the end.
* `Catalog.SameTypes.ends`: whether a file ends depends on the types of a catalog only.
* `generationEnds_of_named`: where every message has a name, runs end.
-/
namespace ProtoTypings

/-! ## Mentions before a fault -/

namespace Resolver

theorem isSome_lookup (known : List (String × Reference)) (key : String) :
    (known.lookup key).isSome = decide (key ∈ known.map (·.1)) := by
  induction known with
  | nil => rfl
  | cons entry rest ih =>
    by_cases h : key = entry.1
    · simp [h]
    · rw [List.lookup_cons, beq_false_of_ne h]
      simp [ih, h]

/-- The memory after a run: every key that was asked for and not known, once, in the order
in which they were first asked for. -/
theorem Run.map_key_known {r r' : Resolver} {qs : List Mention} (h : Run r qs r') :
    r'.known.map (·.1) =
      ((qs.map Mention.key).filter (· ∉ r.known.map (·.1))).eraseDups.reverse ++
        r.known.map (·.1) := by
  induction h with
  | nil => simp
  | @cons r next last q qs context reference hstep _ ih =>
    rw [ih, List.map_cons]
    obtain ⟨hknown, rfl⟩ | ⟨hnone, entry, mid, -, hrefer, rfl⟩ := resolve_eq_ok_iff.1 hstep
    · have hmem : q.key ∈ next.known.map (·.1) :=
        of_decide_eq_true (by rw [← isSome_lookup, hknown, Option.isSome_some])
      rw [List.filter_cons_of_neg (by simpa using hmem)]
    · have hsame : mid.known = r.known := (refer_extends hrefer).2
      have hnew : q.key ∉ r.known.map (·.1) :=
        of_decide_eq_false (by rw [← isSome_lookup, hnone, Option.isSome_none])
      rw [List.filter_cons_of_pos (by simpa using hnew), List.eraseDups_cons, List.reverse_cons,
        remember, hsame, List.map_cons, List.append_assoc, List.singleton_append,
        List.filter_filter]
      congr 3
      refine List.filter_congr fun key _ => ?_
      simp [List.mem_cons, not_or]

end Resolver

namespace ResolveM

variable {α β : Type} {catalog : Catalog} {qs qs' : List Mention}

/-- However the computation ends, it has made some of the mentions `qs` from the first on,
and all of them if it ends with a value. -/
def AsksUpTo (catalog : Catalog) (qs : List Mention) (x : ResolveM α) : Prop :=
  Asks catalog qs x ∧ ∀ r fault r', r.catalog = catalog → Fails x r fault r' →
    ∃ asked, asked <+: qs ∧ Resolver.Run r asked r'

theorem asksUpTo_pure (a : α) : AsksUpTo catalog [] (pure a) :=
  ⟨asks_pure a, fun _ _ _ _ h => absurd h not_fails_pure⟩

/-- A fault that changes nothing may as well have come before all mentions. -/
theorem FailsClean.asksUpTo {x : ResolveM α} (h : FailsClean x) (hasks : Asks catalog qs x) :
    AsksUpTo catalog qs x := by
  refine ⟨hasks, fun r fault r' _ hfails => ?_⟩
  obtain rfl := h r fault r' hfails
  exact ⟨[], List.nil_prefix, .nil _⟩

theorem AsksUpTo.bind {x : ResolveM α} {f : α → ResolveM β} (hx : AsksUpTo catalog qs x)
    (hf : ∀ a, AsksUpTo catalog qs' (f a)) : AsksUpTo catalog (qs ++ qs') (x >>= f) := by
  refine ⟨hx.1.bind fun a => (hf a).1, fun r fault r' hr h => ?_⟩
  obtain hfirst | ⟨a, next, hyields, hsecond⟩ := fails_bind_iff.1 h
  · obtain ⟨asked, hprefix, hrun⟩ := hx.2 r fault r' hr hfirst
    exact ⟨asked, hprefix.trans (List.prefix_append _ _), hrun⟩
  · have hrun := hx.1 r a next hr hyields
    obtain ⟨asked, hprefix, hrun'⟩ :=
      (hf a).2 next fault r' (hrun.extends.catalog.trans hr) hsecond
    exact ⟨qs ++ asked, (List.prefix_append_right_inj qs).2 hprefix, hrun.append hrun'⟩

theorem AsksUpTo.map {x : ResolveM α} (h : AsksUpTo catalog qs x) (f : α → β) :
    AsksUpTo catalog qs (f <$> x) := by
  rw [map_eq_pure_bind, ← List.append_nil qs]
  exact h.bind fun _ => asksUpTo_pure _

theorem asksUpTo_mapM {f : α → ResolveM β} {g : α → List Mention} {xs : List α}
    (hf : ∀ x ∈ xs, AsksUpTo catalog (g x) (f x)) :
    AsksUpTo catalog (xs.flatMap g) (xs.mapM f) := by
  induction xs with
  | nil =>
    rw [List.mapM_nil]
    exact asksUpTo_pure []
  | cons x xs ih =>
    obtain ⟨hx, hxs⟩ := List.forall_mem_cons.1 hf
    rw [List.mapM_cons, List.flatMap_cons]
    refine hx.bind fun y => ?_
    rw [bind_pure_comp]
    exact (ih hxs).map _

end ResolveM

section declarations
variable (context : TypingContext) {catalog : Catalog}

theorem Field.asksUpTo_property (message : String) (path : List Int32) (field : Field)
    (index : Nat) :
    ResolveM.AsksUpTo catalog (field.mentions catalog ⟨message, context.file⟩)
      (field.property context message path index) := by
  refine ResolveM.FailsClean.asksUpTo ?_ Field.asks_property
  unfold Field.property
  simp only [bind_pure_comp]
  exact (field.failsClean_typing context.settings ⟨message, context.file⟩).map _

theorem Message.asksUpTo_typing (m : Message) :
    ∀ outer path, ResolveM.AsksUpTo catalog (m.mentions catalog context.file outer)
      (m.typing context outer path) := by
  induction m using Message.nested_induction with
  | step m ih =>
    intro outer path
    rw [Message.typing_eq, Message.mentions_eq, ← flatMap_zipIdx m.fields,
      ← flatMap_zipIdx m.nested]
    refine ResolveM.AsksUpTo.bind (ResolveM.asksUpTo_mapM fun field _ =>
      field.1.asksUpTo_property context _ path field.2) fun _ => ?_
    rw [bind_pure_comp]
    refine (ResolveM.asksUpTo_mapM fun n hn => ?_).map _
    rw [Message.flaggedTyping, bind_pure_comp]
    exact (ih n.1 (List.fst_mem_of_mem_zipIdx hn) _ _).map _

theorem Method.asksUpTo_operation (package : String) (service : Service) (path : List Int32)
    (method : Method) (index : Nat) :
    ResolveM.AsksUpTo catalog
      [⟨method.input, service.scope package⟩, ⟨method.output, service.scope package⟩]
      (method.operation context (Dotted.join package service.name) path index) := by
  have hpath : ∀ (q : Mention) (context : String), ResolveM.AsksUpTo catalog [q]
      (ResolveM.path q.text q.scope context) := fun q context =>
    (ResolveM.failsClean_path _ _ _).asksUpTo (ResolveM.asks_path q context)
  have hcall : ResolveM.AsksUpTo catalog
      ([⟨method.input, service.scope package⟩] ++ ([⟨method.output, service.scope package⟩] ++ []))
      (method.callType context.settings (Dotted.join package service.name)) :=
    (hpath ⟨method.input, service.scope package⟩ _).bind fun _ =>
      (hpath ⟨method.output, service.scope package⟩ _).bind fun _ => ResolveM.asksUpTo_pure _
  unfold Method.operation
  rw [bind_pure_comp]
  exact hcall.map _

theorem Service.asksUpTo_typing (package : String) (path : List Int32) (service : Service) :
    ResolveM.AsksUpTo catalog (service.mentions package) (service.typing context package path) := by
  unfold Service.typing Service.mentions
  rw [bind_pure_comp, ← flatMap_zipIdx service.methods]
  exact (ResolveM.asksUpTo_mapM fun method _ =>
    method.1.asksUpTo_operation context package service path method.2).map _

end declarations

/-- **Typing a file** makes its mentions in order, up to the first fault. -/
theorem File.asksUpTo_typing (settings : Settings) (catalog : Catalog) (file : File) :
    ResolveM.AsksUpTo catalog (file.mentions catalog) (file.typing settings) := by
  unfold File.typing File.mentions
  simp only [Message.allTypings_eq_mapM]
  rw [Message.allMentions_eq_flatMap, ← flatMap_zipIdx file.messages,
    ← flatMap_zipIdx file.services]
  refine ResolveM.AsksUpTo.bind (ResolveM.asksUpTo_mapM fun m _ => ?_) fun _ => ?_
  · rw [Message.flaggedTyping, bind_pure_comp]
    exact (m.1.asksUpTo_typing (file.typingContext settings) _ _).map _
  · rw [bind_pure_comp]
    exact (ResolveM.asksUpTo_mapM fun service _ =>
      service.1.asksUpTo_typing (file.typingContext settings) _ _).map _

/-! ## Searches of a run -/

/-- The search that it takes to answer the mention ends. Only a type of the file itself
takes one, and only in a package. -/
def Mention.Ends (catalog : Catalog) (file : String) (q : Mention) : Prop :=
  ∀ entry, q.target? catalog = some entry → entry.file = file → entry.package ≠ "" →
    ∃ result, catalog.Walk (Dotted.head entry.localName) (Dotted.parent q.scope) result

theorem map_key_eraseDupsBy (qs : List Mention) :
    (qs.eraseDupsBy fun p q => p.key == q.key).map Mention.key =
      (qs.map Mention.key).eraseDups := by
  induction hlength : qs.length using Nat.strongRecOn generalizing qs with
  | ind n ih =>
    cases qs with
    | nil => rfl
    | cons q rest =>
      have hlt : (rest.filter fun p => decide ((p.key == q.key) = false)).length < n :=
        hlength ▸ Nat.lt_succ_of_le (List.length_filter_le _ _)
      rw [List.eraseDupsBy_cons, List.map_cons, List.map_cons, List.eraseDups_cons, ih _ hlt _ rfl,
        List.filter_map]
      congr 3
      refine List.filter_congr fun p _ => ?_
      cases hkey : p.key == q.key <;> simp [hkey]

namespace Catalog

/-- The mentions that are worked out when a file is typed: of those with one key the first,
as far as the typing gets. The resolver remembers the others, or is not asked. -/
def workedOut (catalog : Catalog) (settings : Settings) (path : String) : List Mention :=
  match catalog.file? path with
  | none => []
  | some file =>
    let last := ((file.typing settings).run.run (Resolver.ofFile catalog path)).2
    ((file.mentions catalog).eraseDupsBy fun p q => p.key == q.key).filter
      fun q => (last.known.lookup q.key).isSome

theorem workedOut_of_file {catalog : Catalog} {path : String} {file : File}
    (hfile : catalog.file? path = some file) (settings : Settings) :
    catalog.workedOut settings path =
      ((file.mentions catalog).eraseDupsBy fun p q => p.key == q.key).filter fun q =>
        (((file.typing settings).run.run
          (Resolver.ofFile catalog path)).2.known.lookup q.key).isSome := by
  rw [workedOut, hfile]

/-- **What is worked out** is what the resolver remembers in the end, in the order in which
it got there, whether the typing has succeeded or not. -/
theorem map_key_workedOut {catalog : Catalog} {path : String} {file : File}
    (hfile : catalog.file? path = some file) {settings : Settings}
    {result : Except Fault FileTyping} {last : Resolver}
    (h : (file.typing settings).run.run (Resolver.ofFile catalog path) = (result, last)) :
    (catalog.workedOut settings path).map Mention.key = (last.known.map (·.1)).reverse := by
  have hasked : ∃ asked, asked <+: file.mentions catalog ∧
      (Resolver.ofFile catalog path).Run asked last := by
    obtain ⟨hall, hsome⟩ := file.asksUpTo_typing settings catalog
    cases result with
    | ok typing => exact ⟨_, List.prefix_rfl, hall _ _ _ rfl h⟩
    | error fault => exact hsome _ _ _ rfl h
  obtain ⟨asked, ⟨more, hmore⟩, hrun⟩ := hasked
  have hkeys : last.known.map (·.1) = (asked.map Mention.key).eraseDups.reverse := by
    have hfresh : (Resolver.ofFile catalog path).known = [] := rfl
    rw [hrun.map_key_known, hfresh]
    simp
  have hmem (q : Mention) : (last.known.lookup q.key).isSome =
      decide (q.key ∈ asked.map Mention.key) := by
    rw [Resolver.isSome_lookup, hkeys]
    simp only [List.mem_reverse, List.mem_eraseDups]
  simp only [workedOut_of_file hfile, h, hmem, hkeys, List.reverse_reverse]
  -- the keys of the mentions after those that were asked are filtered out
  have hfilter (qs : List Mention) : (qs.filter fun q => q.key ∈ asked.map Mention.key).map
      Mention.key = (qs.map Mention.key).filter (· ∈ asked.map Mention.key) := by
    rw [List.filter_map]
    rfl
  rw [hfilter, map_key_eraseDupsBy, ← hmore, List.map_append, List.eraseDups_append,
    List.filter_append, List.filter_eq_self.2, List.filter_eq_nil_iff.2, List.append_nil]
  · intro key hkey
    rw [List.mem_eraseDups, List.removeAll, List.mem_filter] at hkey
    simpa using hkey.2
  · intro key hkey
    simpa using hkey

/-- Every search ends that is made when the file is typed. -/
def Ends (catalog : Catalog) (settings : Settings) (path : String) : Prop :=
  ∀ q ∈ catalog.workedOut settings path, q.Ends catalog path

theorem MessagesNamed.ends {catalog : Catalog} (h : catalog.MessagesNamed) (settings : Settings)
    (path : String) : catalog.Ends settings path :=
  fun _ _ _ _ _ _ => h.exists_walk _ _

end Catalog

/-! ## Catalogs with the same types -/

namespace Catalog

variable {left right : Catalog} (h : left.SameTypes right)
include h

theorem SameTypes.resolve_eq : right.resolve = left.resolve := by
  funext text scope file context
  rw [resolve, resolve, h.resolve?_eq]

theorem SameTypes.mentions_field (site : FieldSite) (field : Field) :
    field.mentions right site = field.mentions left site := by
  have htarget (field : Field) : field.target right site = field.target left site := by
    rw [Field.target, Field.target, h.resolve_eq]
  have hkind (field : Field) : field.kind right site = field.kind left site := by
    rw [Field.kind, Field.kind, htarget]
  have hentry : field.mapEntry? right site = field.mapEntry? left site := by
    rw [Field.mapEntry?, Field.mapEntry?, hkind, htarget]
  have hcarrier : field.carrier? right site = field.carrier? left site := by
    rw [Field.carrier?, Field.carrier?, hentry]
  rw [Field.mentions, Field.mentions, Field.typeReference?, Field.typeReference?, hcarrier]
  simp only [hkind]

theorem SameTypes.mentions_message (file : String) (m : Message) :
    ∀ outer, m.mentions right file outer = m.mentions left file outer := by
  induction m using Message.nested_induction with
  | step m ih =>
    intro outer
    rw [Message.mentions_eq, Message.mentions_eq, funext (h.mentions_field _)]
    exact congrArg _ (List.flatMap_congr fun n hn => ih n hn _)

theorem SameTypes.mentions_file (file : File) : file.mentions right = file.mentions left := by
  rw [File.mentions, File.mentions, Message.allMentions_eq_flatMap, Message.allMentions_eq_flatMap]
  exact congrArg (· ++ _) (List.flatMap_congr fun m _ => h.mentions_message _ m _)

theorem SameTypes.walk {name enclosing : String} {result : Bool}
    (hwalk : left.Walk name enclosing result) : right.Walk name enclosing result := by
  have hget : ∀ name, right.get? name = left.get? name := fun name => h _
  have hdeclares : ∀ owner name, right.declares owner name = left.declares owner name :=
    fun owner name => congrArg Option.isSome (hget _)
  induction hwalk with
  | stop hstop => exact .stop fun owner howner => hstop owner (hget _ ▸ howner)
  | found howner hmessage hfound =>
    exact .found ((hget _).trans howner) hmessage ((hdeclares _ _).trans hfound)
  | outward howner hmessage hnot _ ih =>
    exact .outward ((hget _).trans howner) hmessage ((hdeclares _ _).trans hnot) ih

/-- The memory after typing a file is the same over both catalogs. -/
theorem SameTypes.known_eq {path : String} {file : File} (hleft : left.file? path = some file)
    (hright : right.file? path = some file) (settings : Settings) :
    ((file.typing settings).run.run (Resolver.ofFile right path)).2.known =
      ((file.typing settings).run.run (Resolver.ofFile left path)).2.known := by
  have hcovers : (h.comparison path).Covers file :=
    ⟨fun _ => ⟨trivial, fun _ _ => trivial⟩, fun _ _ => ⟨trivial, fun _ _ => ⟨trivial, trivial⟩⟩⟩
  have hstart := Comparison.paired_ofFile (k := h.comparison path) hleft hright
  have hlockstep := File.lockstep_typing (a := settings) (b := settings) hcovers
  obtain ⟨typing, last, hyields⟩ | ⟨fault, last, hfails⟩ :=
    ResolveM.yields_or_fails (file.typing settings) (Resolver.ofFile left path)
  · obtain ⟨typing', last', hyields', -, hpaired⟩ := hlockstep.yields hstart hyields
    have hrun : (file.typing settings).run.run (Resolver.ofFile left path) = _ := hyields
    have hrun' : (file.typing settings).run.run (Resolver.ofFile right path) = _ := hyields'
    rw [hrun, hrun', hpaired.eq]
  · obtain ⟨last', hfails', hpaired⟩ := hlockstep.fails trivial hstart hfails
    have hrun : (file.typing settings).run.run (Resolver.ofFile left path) = _ := hfails
    have hrun' : (file.typing settings).run.run (Resolver.ofFile right path) = _ := hfails'
    rw [hrun, hrun', hpaired.eq]

theorem SameTypes.workedOut_eq {path : String} (hfile : right.file? path = left.file? path)
    (settings : Settings) : right.workedOut settings path = left.workedOut settings path := by
  cases hleft : left.file? path with
  | none => rw [workedOut, workedOut, hfile, hleft]
  | some file =>
    rw [hleft] at hfile
    rw [workedOut_of_file hfile, workedOut_of_file hleft, h.mentions_file,
      h.known_eq hleft hfile]

/-- Over a catalog with the same types a file ends as well. -/
theorem SameTypes.ends {path : String} (hfile : right.file? path = left.file? path)
    {settings : Settings} (hends : left.Ends settings path) : right.Ends settings path := by
  intro q hq entry htarget hown hpackage
  rw [h.workedOut_eq hfile] at hq
  rw [Mention.target?, h.resolve?_eq] at htarget
  obtain ⟨result, hwalk⟩ := hends q hq entry htarget hown hpackage
  exact ⟨result, h.walk hwalk⟩

end Catalog

/-! ## Whole runs -/

/-- The run ends: the catalog is not made, a requested path has no file, or every file that
is typed ends. -/
def GenerationEnds (settings : Settings) (files : List File) (request : List String) : Prop :=
  ∀ catalog, Catalog.ofFiles files = .ok catalog →
    (∀ path ∈ request, ∃ file, catalog.file? path = some file) →
    ∀ path ∈ request, catalog.Ends settings path

/-- The run ends, with the given result. -/
structure Generates (settings : Settings) (files : List File) (request : List String)
    (result : Except Fault (List Output)) : Prop where
  generate_eq : generate settings files request = result
  ends : GenerationEnds settings files request

theorem not_generates {settings : Settings} {files : List File} {request : List String}
    (h : ¬ GenerationEnds settings files request) (result : Except Fault (List Output)) :
    ¬ Generates settings files request result :=
  fun hgenerates => h hgenerates.ends

theorem generates_of_fault {settings : Settings} {files : List File} {fault : Fault}
    (h : Catalog.ofFiles files = .error fault) (request : List String) :
    Generates settings files request (.error fault) := by
  refine ⟨by rw [generate, h]; rfl, fun catalog hcatalog => ?_⟩
  rw [h] at hcatalog
  cases hcatalog

/-- **Where every message has a name**, or at least its file a package, runs end. -/
theorem generationEnds_of_named {files : List File}
    (h : ∀ file ∈ files, file.packageName = "" → ∀ m ∈ file.messages, m.name ≠ "")
    (settings : Settings) (request : List String) : GenerationEnds settings files request := by
  intro catalog hfiles _ path _
  exact ((Catalog.messagesNamed_iff_files hfiles).2 h).ends settings path

theorem exists_nameless_of_not_ends {settings : Settings} {files : List File}
    {request : List String} (h : ¬ GenerationEnds settings files request) :
    ∃ file ∈ files, file.packageName = "" ∧ ∃ m ∈ file.messages, m.name = "" := by
  by_contra hnone
  refine h (generationEnds_of_named (fun file hfile hpackage m hm hname => ?_) settings request)
  exact hnone ⟨file, hfile, hpackage, m, hm, hname⟩

/-! ## A run that does not end -/

namespace Sample

/-- A file without a package, with a message without a name. -/
def root : File where
  name := some "e.proto"
  messages := [{}]

/-- A file whose service refers to a message of the file. -/
def caller : File where
  name := some "s.proto"
  package := some "pkg"
  messages := [{ name := "Req" }]
  services :=
    [{ name := "S", methods := [{ name := "Call", input := ".pkg.Req", output := ".pkg.Req" }] }]

def endlessCatalog : Catalog := ⟨[root, caller], [root, caller].flatMap File.types⟩

theorem ofFiles_endless : Catalog.ofFiles [root, caller] = .ok endlessCatalog := rfl

/-- The search for what hides `Req` outside of `pkg` comes to the message without a name. -/
theorem not_generationEnds : ¬ GenerationEnds {} [root, caller] ["s.proto"] := by
  intro hends
  have hpresent : ∀ path ∈ ["s.proto"], ∃ file, endlessCatalog.file? path = some file := by
    simp only [List.forall_mem_singleton]
    exact ⟨_, rfl⟩
  have hmention : ⟨".pkg.Req", "pkg"⟩ ∈ endlessCatalog.workedOut {} "s.proto" := .head _
  obtain ⟨result, hwalk⟩ :=
    hends _ ofFiles_endless hpresent "s.proto" (.head _) _ hmention _ rfl rfl (by decide)
  exact Catalog.not_walk_root rfl hwalk

end Sample
end ProtoTypings
