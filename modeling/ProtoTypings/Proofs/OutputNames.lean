import ProtoTypings.Exchange
import ProtoTypings.Proofs.RunOrder
/-!
# Names of declaration files

A declaration file is called after the path of its source, less the ending
`.proto`. The ending is optional, so two sources can have one name: a path
without the ending, and the same path with it. Nothing in a run looks for such
twins.

**Results.**
* `stem_eq_iff`: paths with one stem are equal or twins.
* `generate_names`: the outputs of a run are called after the requested paths.
* `output_names_nodup_iff`: the names of a run's outputs differ exactly when no
  twins are requested, and so do those in a response.
* `generate_twins`: a run with twins.
-/
namespace ProtoTypings

/-! ## Paths with one stem -/

/-- A path without the ending, and the same path with it. -/
def Twins (plain full : String) : Prop := ¬ HasEnding plain ∧ full = plain ++ ".proto"

instance (plain full : String) : Decidable (Twins plain full) :=
  inferInstanceAs (Decidable (_ ∧ _))

/-- Two paths have one stem exactly when they are equal or one of them is the
other with the ending. -/
theorem stem_eq_iff {a b : String} : stem a = stem b ↔ a = b ∨ Twins a b ∨ Twins b a := by
  constructor
  · intro h
    by_cases ha : HasEnding a <;> by_cases hb : HasEnding b
    · left
      rw [eq_stem_append ha, h, ← eq_stem_append hb]
    · right; right
      rw [stem_of_not_hasEnding hb] at h
      exact ⟨hb, by rw [← h]; exact eq_stem_append ha⟩
    · right; left
      rw [stem_of_not_hasEnding ha] at h
      exact ⟨ha, by rw [h]; exact eq_stem_append hb⟩
    · left
      rwa [stem_of_not_hasEnding ha, stem_of_not_hasEnding hb] at h
  · intro h
    rcases h with rfl | ⟨ha, rfl⟩ | ⟨hb, rfl⟩
    · rfl
    · rw [stem_append, stem_of_not_hasEnding ha]
    · rw [stem_append, stem_of_not_hasEnding hb]

theorem Output.nameFor_eq_iff {a b : String} :
    Output.nameFor a = Output.nameFor b ↔ a = b ∨ Twins a b ∨ Twins b a := by
  rw [← stem_eq_iff]
  simp [Output.nameFor]

theorem Twins.ne {plain full : String} (h : Twins plain full) : plain ≠ full := by
  rintro rfl
  have hlength := congrArg String.length h.2
  simp at hlength

/-! ## The names of a run -/

/-- A path of a request is there without its ending and with it. -/
def HasTwins (request : List String) : Prop := ∃ path ∈ request, ∃ other ∈ request, Twins path other

instance (request : List String) : Decidable (HasTwins request) :=
  inferInstanceAs (Decidable (∃ path ∈ request, ∃ other ∈ request, Twins path other))

/-- Different paths get different names exactly when there are no twins among
them. -/
theorem nodup_map_nameFor_iff {paths : List String} (h : paths.Nodup) :
    (paths.map Output.nameFor).Nodup ↔ ¬ HasTwins paths := by
  constructor
  · rintro hnames ⟨plain, hplain, full, hfull, htwins⟩
    have hname : Output.nameFor plain = Output.nameFor full :=
      Output.nameFor_eq_iff.2 (.inr (.inl htwins))
    exact htwins.ne (List.inj_on_of_nodup_map hnames hplain hfull hname)
  · intro hno
    refine List.Nodup.map_on (fun a ha b hb hname => ?_) h
    rcases Output.nameFor_eq_iff.1 hname with heq | htwins | htwins
    · exact heq
    · exact absurd ⟨a, ha, b, hb, htwins⟩ hno
    · exact absurd ⟨b, hb, a, ha, htwins⟩ hno

theorem generate_names {settings : Settings} {files : List File} {request : List String}
    {outputs : List Output} (h : generate settings files request = .ok outputs) :
    outputs.map (·.source) = requestedPaths request ∧
      outputs.map (·.name) = (requestedPaths request).map Output.nameFor := by
  obtain ⟨catalog, -, houtputs⟩ := Catalog.generate_eq_ok_iff.1 h
  constructor
  · rw [← List.map_id (requestedPaths request)]
    refine (map_eq_map_of_forall₂ houtputs fun path output houtput => ?_).symm
    exact (Catalog.source_of_output houtput).symm
  · refine (map_eq_map_of_forall₂ houtputs fun path output houtput => ?_).symm
    obtain ⟨typings, -, rfl⟩ := Catalog.typings_of_output houtput
    rfl

theorem generate_names_nodup_iff {settings : Settings} {files : List File} {request : List String}
    {outputs : List Output} (h : generate settings files request = .ok outputs) :
    (outputs.map (·.name)).Nodup ↔ ¬ HasTwins request := by
  rw [(generate_names h).2, nodup_map_nameFor_iff (requestedPaths_nodup request)]
  simp only [HasTwins, mem_requestedPaths]

/-- A response without an error holds the outputs of the run that was asked
for. -/
theorem respond_ok {bytes : List UInt8} (h : (respond bytes).error = none) :
    ∃ request settings, Request.decode bytes = some request ∧
      Settings.ofParameter request.parameter = .ok settings ∧
      generate settings request.files request.requested = .ok (respond bytes).files := by
  unfold respond runRequest at h ⊢
  cases hrequest : Request.decode bytes with
  | none => simp [hrequest, Response.ofResult] at h
  | some request =>
    simp only [hrequest] at h ⊢
    unfold Request.outputs at h ⊢
    cases hsettings : Settings.ofParameter request.parameter with
    | error fault =>
      rw [hsettings] at h
      cases h
    | ok settings =>
      rw [hsettings] at h
      refine ⟨request, settings, rfl, hsettings, ?_⟩
      cases hrun : generate settings request.files request.requested with
      | error fault =>
        simp only [bind, Except.bind, hrun] at h
        cases h
      | ok outputs =>
        show Except.ok outputs = Except.ok (Response.ofResult (generate settings _ _)).files
        rw [hrun]
        rfl

/-- **When the names of outputs differ.** The declaration files of a run have
different names exactly when the request does not have a path both without the
ending `.proto` and with it. The same holds of the files in a response without an
error. -/
theorem output_names_nodup_iff (settings : Settings) (files : List File) (request : List String)
    (bytes : List UInt8) :
    (∀ outputs, generate settings files request = .ok outputs →
      ((outputs.map (·.name)).Nodup ↔ ¬ HasTwins request)) ∧
    ((respond bytes).error = none → ∃ request, Request.decode bytes = some request ∧
      (((respond bytes).files.map (·.name)).Nodup ↔ ¬ HasTwins request.requested)) := by
  refine ⟨fun _ h => generate_names_nodup_iff h, fun h => ?_⟩
  obtain ⟨request, _, hrequest, -, hrun⟩ := respond_ok h
  exact ⟨request, hrequest, generate_names_nodup_iff hrun⟩

/-! ## A run with twins -/

namespace Sample

/-- A file without the ending, and one whose path is the same with it. -/
def odd : File where
  name := some "odd"
  messages := [{ name := "First" }]

def oddProto : File where
  name := some "odd.proto"
  messages := [{ name := "Second" }]

/-- A request for a file `odd` without declarations, as the compiler sends it. -/
def oddRequest : List UInt8 :=
  [0x0A, 3, 0x6F, 0x64, 0x64, 0x7A, 5, 0x0A, 3, 0x6F, 0x64, 0x64]

end Sample

theorem output_names_nodup_iff_odd :
    (∃ outputs, generate {} [Sample.odd, Sample.base] ["lib/base.proto", "odd"] = .ok outputs ∧
      (outputs.map (·.name)).Nodup) ∧
    (respond Sample.oddRequest).error = none ∧
      ((respond Sample.oddRequest).files.map (·.name)).Nodup := by
  have hrun : ∃ outputs,
      generate {} [Sample.odd, Sample.base] ["lib/base.proto", "odd"] = .ok outputs := by
    have hpaths : ["lib/base.proto", "odd"].Pairwise (· < ·) := by decide
    simp only [generate, requestedPaths_of_pairwise hpaths]
    exact ⟨_, rfl⟩
  have hdecode : Request.decode Sample.oddRequest =
      some { requested := ["odd"], files := [{ name := some "odd" }] } := by
    with_unfolding_all rfl
  have hresponse : (respond Sample.oddRequest).error = none := by
    have hpaths : requestedPaths ["odd"] = ["odd"] :=
      requestedPaths_of_pairwise (List.pairwise_singleton _ _)
    simp only [respond, runRequest, hdecode, Request.outputs, generate, hpaths]
    rfl
  obtain ⟨outputs, h⟩ := hrun
  obtain ⟨hnames, hfiles⟩ := output_names_nodup_iff {} [Sample.odd, Sample.base]
    ["lib/base.proto", "odd"] Sample.oddRequest
  refine ⟨⟨outputs, h, (hnames outputs h).2 (by decide)⟩, hresponse, ?_⟩
  obtain ⟨request, hrequest, hiff⟩ := hfiles hresponse
  rw [hdecode, Option.some.injEq] at hrequest
  subst hrequest
  exact hiff.2 (by decide)

/-- **Twins share a name.** A run succeeds with two different declaration files of
one name. -/
theorem generate_twins :
    ∃ first second,
      generate {} [Sample.odd, Sample.oddProto] ["odd", "odd.proto"] = .ok [first, second] ∧
        first.source ≠ second.source ∧ first.content ≠ second.content ∧
        first.name = second.name := by
  have hpaths : ["odd", "odd.proto"].Pairwise (· < ·) := by decide
  simp only [generate, requestedPaths_of_pairwise hpaths]
  exact ⟨_, _, rfl, by decide, by decide +kernel, by decide⟩

end ProtoTypings
