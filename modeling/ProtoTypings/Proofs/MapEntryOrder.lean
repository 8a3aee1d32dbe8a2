import Mathlib.Data.List.Induction
import Mathlib.Data.List.Perm.Basic
import Mathlib.Data.List.Nodup
import ProtoTypings.Typing.Declaration
/-!
# The order of map entries

Placing the entry types of maps loses none and repeats none, as long as their
full names differ. The order of their names depends on names alone.

* `placeBy`: elements in the order in which their keys are named, then the others.
* `placeBy_perm`: the elements stay the same.
* `placeBy_order`: what was named stands by the first element that names it.
-/
namespace ProtoTypings

theorem nodup_eraseDups : ∀ names : List String, names.eraseDups.Nodup
  | [] => by simp
  | name :: rest => by
    rw [List.eraseDups_cons, List.nodup_cons]
    exact ⟨by simp, nodup_eraseDups _⟩
termination_by names => names.length
decreasing_by
  rw [List.length_cons]
  exact Nat.lt_succ_of_le (List.length_filter_le _ _)

section placing
variable {α β : Type} {key : α → String} {xs : List α}

/-- The elements whose keys `used` names, by the first naming, then the others. -/
def placeBy (key : α → String) (used : List String) (xs : List α) : List α :=
  used.eraseDups.filterMap (fun name => xs.find? (key · = name)) ++ xs.filter (key · ∉ used)

theorem placeBy_congr {key' : α → String} (h : ∀ x ∈ xs, key x = key' x) (used : List String) :
    placeBy key used xs = placeBy key' used xs := by
  have hfind (name : String) : xs.find? (key · = name) = xs.find? (key' · = name) := by
    rw [← List.head?_filter, ← List.head?_filter]
    exact congrArg List.head? (List.filter_congr fun x hx => by rw [h x hx])
  have hfilter : xs.filter (key · ∉ used) = xs.filter (key' · ∉ used) :=
    List.filter_congr fun x hx => by rw [h x hx]
  simp only [placeBy, hfind, hfilter]

theorem map_placeBy (key : β → String) (f : α → β) (used : List String) (xs : List α) :
    (placeBy (fun x => key (f x)) used xs).map f = placeBy key used (xs.map f) := by
  rw [placeBy, placeBy, List.map_append, List.map_filterMap, List.filter_map]
  simp only [List.find?_map]
  rfl

theorem find?_key_eq_some {name : String} {x : α} (h : xs.find? (key · = name) = some x) :
    x ∈ xs ∧ key x = name :=
  ⟨List.mem_of_find?_eq_some h, by simpa using List.find?_some h⟩

/-- **No element is lost or repeated.** -/
theorem placeBy_perm (h : (xs.map key).Nodup) (used : List String) :
    (placeBy key used xs).Perm xs := by
  have hnodup : xs.Nodup := List.Nodup.of_map _ h
  have hplaced : (used.eraseDups.filterMap fun name => xs.find? (key · = name)).Perm
      (xs.filter (key · ∈ used)) := by
    refine (List.perm_ext_iff_of_nodup ?_ (hnodup.filter _)).2 fun x => ?_
    · refine List.Nodup.filterMap (fun name name' x hname hname' => ?_) (nodup_eraseDups used)
      rw [← (find?_key_eq_some hname).2, ← (find?_key_eq_some hname').2]
    · simp only [List.mem_filterMap, List.mem_eraseDups, List.mem_filter, decide_eq_true_eq]
      constructor
      · intro hplaced
        obtain ⟨name, hname, hfound⟩ := hplaced
        obtain ⟨hmem, rfl⟩ := find?_key_eq_some hfound
        exact ⟨hmem, hname⟩
      · intro hkept
        obtain ⟨hmem, hused⟩ := hkept
        refine ⟨key x, hused, ?_⟩
        cases hfound : xs.find? (key · = key x) with
        | none =>
          rw [List.find?_eq_none] at hfound
          exact absurd (by simp) (hfound x hmem)
        | some other =>
          obtain ⟨hother, heq⟩ := find?_key_eq_some hfound
          rw [List.inj_on_of_nodup_map h hother hmem heq]
  have hsplit : (xs.filter (key · ∈ used) ++ xs.filter (key · ∉ used)).Perm xs := by
    simpa using List.filter_append_perm (fun x => decide (key x ∈ used)) xs
  exact (hplaced.append_right _).trans hsplit

end placing

/-! ## First namings -/

section first
variable {α : Type} {p : α → Prop} {xs : List α}

/-- The element at a position is the first one of a list with a property. -/
def FirstAt (p : α → Prop) (xs : List α) (position : Nat) : Prop :=
  (∃ x, xs[position]? = some x ∧ p x) ∧ ∀ j < position, ∀ x, xs[j]? = some x → ¬ p x

theorem firstAt_congr {q : α → Prop} (h : ∀ x ∈ xs, p x ↔ q x) {position : Nat} :
    FirstAt p xs position ↔ FirstAt q xs position := by
  have hat (j : Nat) (x : α) (hx : xs[j]? = some x) : p x ↔ q x :=
    h x (List.mem_of_getElem? hx)
  constructor
  · rintro ⟨⟨x, hx, hp⟩, hbefore⟩
    exact ⟨⟨x, hx, (hat _ x hx).1 hp⟩, fun j hj y hy hq => hbefore j hj y hy ((hat j y hy).2 hq)⟩
  · rintro ⟨⟨x, hx, hq⟩, hbefore⟩
    exact ⟨⟨x, hx, (hat _ x hx).2 hq⟩, fun j hj y hy hp => hbefore j hj y hy ((hat j y hy).1 hp)⟩

theorem FirstAt.lt_length {position : Nat} (h : FirstAt p xs position) : position < xs.length := by
  obtain ⟨⟨x, hx, -⟩, -⟩ := h
  exact (List.getElem?_eq_some_iff.1 hx).1

/-- One more element is the first only if there was none before. -/
theorem firstAt_concat_iff {last : α} {position : Nat} :
    FirstAt p (xs ++ [last]) position ↔
      FirstAt p xs position ∨ position = xs.length ∧ p last ∧ ∀ x ∈ xs, ¬ p x := by
  constructor
  · rintro ⟨⟨x, hx, hp⟩, hbefore⟩
    have hinit : ∀ j < position, ∀ y, xs[j]? = some y → ¬ p y := fun j hj y hy =>
      hbefore j hj y (List.getElem?_append_left (List.getElem?_eq_some_iff.1 hy).1 ▸ hy)
    have hlength : position < (xs ++ [last]).length := (List.getElem?_eq_some_iff.1 hx).1
    rw [List.length_append, List.length_singleton] at hlength
    rcases Nat.lt_or_ge position xs.length with hlt | hge
    · rw [List.getElem?_append_left hlt] at hx
      exact .inl ⟨⟨x, hx, hp⟩, hinit⟩
    · obtain rfl : position = xs.length := by omega
      rw [List.getElem?_concat_length, Option.some.injEq] at hx
      subst hx
      refine .inr ⟨rfl, hp, fun y hy => ?_⟩
      obtain ⟨j, hj, rfl⟩ := List.getElem_of_mem hy
      exact hinit j hj _ (List.getElem?_eq_getElem hj)
  · rintro (h | ⟨rfl, hp, hnone⟩)
    · have hlt := h.lt_length
      obtain ⟨⟨x, hx, hp⟩, hbefore⟩ := h
      refine ⟨⟨x, by rw [List.getElem?_append_left hlt, hx], hp⟩, fun j hj y hy => ?_⟩
      rw [List.getElem?_append_left (Nat.lt_trans hj hlt)] at hy
      exact hbefore j hj y hy
    · refine ⟨⟨last, List.getElem?_concat_length, hp⟩, fun j hj y hy => ?_⟩
      rw [List.getElem?_append_left hj] at hy
      exact hnone y (List.mem_of_getElem? hy)

theorem exists_firstAt (h : ∃ x ∈ xs, p x) : ∃ position, FirstAt p xs position := by
  induction xs using List.reverseRecOn with
  | nil => simp at h
  | append_singleton xs last ih =>
    by_cases hinit : ∃ x ∈ xs, p x
    · obtain ⟨position, hposition⟩ := ih hinit
      exact ⟨position, firstAt_concat_iff.2 (.inl hposition)⟩
    · have hnone : ∀ x ∈ xs, ¬ p x := fun x hx hp => hinit ⟨x, hx, hp⟩
      obtain ⟨x, hx, hp⟩ := h
      obtain hx | hx := List.mem_append.1 hx
      · exact absurd hp (hnone x hx)
      · exact ⟨xs.length, firstAt_concat_iff.2 (.inr ⟨rfl, List.mem_singleton.1 hx ▸ hp, hnone⟩)⟩

/-- Names without their repetitions stand in the order of the elements that give
them first. -/
theorem pairwise_eraseDups_filterMap (give : α → Option String) (xs : List α) :
    (xs.filterMap give).eraseDups.Pairwise fun a b => ∀ i j,
      FirstAt (give · = some a) xs i → FirstAt (give · = some b) xs j → i < j := by
  induction xs using List.reverseRecOn with
  | nil => simp
  | append_singleton xs last ih =>
    -- what was given before is given first before
    have hbefore {a : String} (ha : a ∈ (xs.filterMap give).eraseDups) {i : Nat}
        (hi : FirstAt (give · = some a) (xs ++ [last]) i) : FirstAt (give · = some a) xs i := by
      obtain ⟨x, hx, hgive⟩ := List.mem_filterMap.1 (List.mem_eraseDups.1 ha)
      obtain hi | ⟨-, -, hnone⟩ := firstAt_concat_iff.1 hi
      · exact hi
      · exact absurd hgive (hnone x hx)
    have hold := ih.imp_of_mem fun ha hb hlt i j hi hj => hlt i j (hbefore ha hi) (hbefore hb hj)
    rw [List.filterMap_append, List.eraseDups_append, List.pairwise_append]
    refine ⟨hold, ?_, fun a ha b hb i j hi hj => ?_⟩
    · cases hgive : give last with
      | none => simp [List.removeAll, hgive]
      | some name =>
        have hone : [last].filterMap give = [name] := by simp [hgive]
        rw [hone, List.removeAll, List.filter_cons]
        split <;> simp [List.eraseDups_cons]
    · have hnew : b ∉ xs.filterMap give := by
        have hmem := List.mem_eraseDups.1 hb
        rw [List.removeAll, List.mem_filter] at hmem
        simpa using hmem.2
      have hlt := (hbefore ha hi).lt_length
      obtain hj | ⟨rfl, -, -⟩ := firstAt_concat_iff.1 hj
      · obtain ⟨⟨x, hx, hgive⟩, -⟩ := hj
        exact absurd (List.mem_filterMap.2 ⟨x, List.mem_of_getElem? hx, hgive⟩) hnew
      · exact hlt

/-- **The order of placed elements.** First those that some giver uses, by the
first one that does, then the others as they were. Givers use what they name. -/
theorem placeBy_order {β : Type} {key : β → String} {ys : List β} (h : (ys.map key).Nodup)
    {give : α → Option String} {uses : β → α → Prop}
    (huses : ∀ y ∈ ys, ∀ x ∈ xs, give x = some (key y) ↔ uses y x) :
    ∃ used unused, placeBy key (xs.filterMap give) ys = used ++ unused ∧
      (used ++ unused).Perm ys ∧ (∀ y ∈ used, ∃ i, FirstAt (uses y) xs i) ∧
      used.Pairwise (fun y y' => ∀ i j, FirstAt (uses y) xs i → FirstAt (uses y') xs j → i < j) ∧
      (∀ y ∈ unused, ∀ x ∈ xs, ¬ uses y x) ∧ unused.Sublist ys := by
  refine ⟨_, _, rfl, placeBy_perm h _, fun y hy => ?_, ?_, fun y hy x hx hused => ?_,
    List.filter_sublist⟩
  · obtain ⟨name, hname, hfound⟩ := List.mem_filterMap.1 hy
    obtain ⟨hmem, rfl⟩ := find?_key_eq_some hfound
    obtain ⟨x, hx, hgive⟩ := List.mem_filterMap.1 (List.mem_eraseDups.1 hname)
    exact exists_firstAt ⟨x, hx, (huses y hmem x hx).1 hgive⟩
  · refine (pairwise_eraseDups_filterMap give xs).filterMap _ ?_
    intro a b hlt y hy y' hy' i j hi hj
    obtain ⟨hmem, rfl⟩ := find?_key_eq_some hy
    obtain ⟨hmem', rfl⟩ := find?_key_eq_some hy'
    exact hlt i j ((firstAt_congr (huses y hmem)).2 hi) ((firstAt_congr (huses y' hmem')).2 hj)
  · obtain ⟨hmem, hnot⟩ := List.mem_filter.1 hy
    rw [decide_eq_true_eq] at hnot
    exact hnot (List.mem_filterMap.2 ⟨x, hx, (huses y hmem x hx).2 hused⟩)

end first

/-! ## Entry types -/

namespace MessageTyping

/-- The names of entry types in their order: those that `used` names inside
`scope`, by the first naming, then the others. -/
def placeNames (scope : String) (used names : List String) : List String :=
  used.eraseDups.filterMap (fun full => names.find? fun name => Dotted.join scope name = full) ++
    names.filter fun name => Dotted.join scope name ∉ used

theorem map_name_placeEntries {scope : String} {entries : List MessageTyping}
    (h : ∀ entry ∈ entries, entry.fullName = Dotted.join scope entry.name) (used : List String) :
    (placeEntries used entries).map (·.name) =
      placeNames scope used (entries.map (·.name)) := by
  have hkeys : placeEntries used entries =
      placeBy (fun entry => Dotted.join scope entry.name) used entries := placeBy_congr h used
  rw [hkeys]
  exact map_placeBy (Dotted.join scope) (·.name) used entries

/-- **No entry type is lost or repeated.** -/
theorem placeEntries_perm {entries : List MessageTyping}
    (h : (entries.map (·.fullName)).Nodup) (used : List String) :
    (placeEntries used entries).Perm entries :=
  placeBy_perm h used

end MessageTyping
end ProtoTypings
