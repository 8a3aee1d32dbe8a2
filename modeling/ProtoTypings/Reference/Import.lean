import ProtoTypings.Descriptor.Basic
/-!
# Imports of an output file

Every file that an output file refers to is imported once, under a local name
of its own. The name is made from the imported path; if it is taken, the first
free one of `name_2`, `name_3`, … is used instead. Names are given in the order
of first need and never change afterwards.
-/
namespace ProtoTypings

/-- One import of an output file. -/
structure Import where
  /-- The local name. -/
  name : String
  /-- The path of the imported file. -/
  file : String
  /-- The module that is imported. -/
  specifier : String
  /-- Whether a reference goes through the import. -/
  used : Bool := false
  deriving DecidableEq, Repr, Inhabited

namespace Import

/-- Whether a character may stand in a local name. -/
def isNameChar (c : Char) : Bool :=
  c.isAlphanum || c = '_'

/-- The local name that a path suggests: what cannot stand in a name becomes
an underscore, and one goes in front where no name can begin. -/
def suggestion (path : String) : String :=
  let cs := (stem path).toList.map fun c => if isNameChar c then c else '_'
  match cs.head? with
  | none => "_"
  | some c => String.ofList (if c.isDigit then '_' :: cs else cs)

/-- The suggestion `base` with the number `n`. -/
def numbered (base : String) (n : Nat) : String :=
  base ++ "_" ++ toString n

/-- The number of a name that is `base` with a number. -/
def numberOf? (base name : String) : Option Nat :=
  match Text.after? (base.toList ++ ['_']) name.toList with
  | some digits =>
    let n := Nat.ofDigitChars 10 digits 0
    if numbered base n = name then some n else none
  | none => none

theorem numberOf?_eq_some_iff {base name : String} {n : Nat} :
    numberOf? base name = some n ↔ name = numbered base n := by
  constructor
  · intro h
    rw [numberOf?] at h
    split at h
    · next digits _ =>
      by_cases hname : numbered base (Nat.ofDigitChars 10 digits 0) = name
      · rw [if_pos hname, Option.some.injEq] at h
        rw [← hname, h]
      · rw [if_neg hname] at h
        cases h
    · cases h
  · rintro rfl
    have hdigits : Text.after? (base.toList ++ ['_']) (numbered base n).toList =
        some (Nat.toDigits 10 n) :=
      Text.after?_eq_some_iff.2 (by simp [numbered])
    simp [numberOf?, hdigits, Nat.ofDigitChars_ten_toDigits]

/-- The least number from `start` on that is not in a list, given in ascending
order. -/
def leastFree (start : Nat) : List Nat → Nat
  | [] => start
  | n :: rest =>
    if n < start then leastFree start rest
    else if n = start then leastFree (start + 1) rest
    else start

theorem le_leastFree (start : Nat) (numbers : List Nat) : start ≤ leastFree start numbers := by
  fun_induction leastFree start numbers with
  | case1 => exact Nat.le_refl _
  | case2 _ _ _ _ ih => exact ih
  | case3 _ _ _ ih => exact Nat.le_of_succ_le ih
  | case4 => exact Nat.le_refl _

theorem leastFree_notMem {numbers : List Nat} (h : numbers.Pairwise (· ≤ ·)) (start : Nat) :
    leastFree start numbers ∉ numbers := by
  fun_induction leastFree start numbers with
  | case1 => exact List.not_mem_nil
  | case2 start n rest hlt ih =>
    have hle := le_leastFree start rest
    rw [List.mem_cons, not_or]
    exact ⟨by omega, ih h.of_cons⟩
  | case3 start rest _ ih =>
    have hle := le_leastFree (start + 1) rest
    rw [List.mem_cons, not_or]
    exact ⟨by omega, ih h.of_cons⟩
  | case4 start n rest hlt hne =>
    rw [List.mem_cons, not_or]
    refine ⟨fun heq => hne heq.symm, fun hmem => ?_⟩
    have := List.rel_of_pairwise_cons h hmem
    omega

theorem mem_of_lt_leastFree {numbers : List Nat} {start m : Nat} (hm : start ≤ m)
    (h : m < leastFree start numbers) : m ∈ numbers := by
  fun_induction leastFree start numbers with
  | case1 => omega
  | case2 _ _ _ _ ih => exact List.mem_cons_of_mem _ (ih hm h)
  | case3 start rest _ ih =>
    by_cases heq : m = start
    · exact heq ▸ List.mem_cons_self
    · exact List.mem_cons_of_mem _ (ih (by omega) h)
  | case4 => omega

/-- The first of `base`, `base_2`, `base_3`, … that is not taken. -/
def freeName (taken : List String) (base : String) : String :=
  if base ∈ taken then
    let numbers := taken.filterMap (numberOf? base)
    numbered base (leastFree 2 (numbers.mergeSort Nat.ble))
  else base

end Import

/-- The imports of an output file, and the names that none of them may have. -/
structure Imports where
  reserved : List String := []
  /-- The imports in the order in which they got their names. -/
  list : List Import := []
  deriving DecidableEq, Repr, Inhabited

namespace Imports

/-- The names that a new import may not have. -/
def taken (imports : Imports) : List String :=
  imports.reserved ++ imports.list.map (·.name)

def find? (imports : Imports) (file : String) : Option Import :=
  imports.list.find? (·.file = file)

/-- The import that a file gets if it has none. -/
def fresh (imports : Imports) (file : String) : Import where
  name := Import.freeName imports.taken (Import.suggestion file)
  file := file
  specifier := stem file

def add (imports : Imports) (file : String) : Imports :=
  match imports.find? file with
  | some _ => imports
  | none => { imports with list := imports.list ++ [imports.fresh file] }

/-- The local name of a file among imports that have it, and the one that it
would get otherwise. -/
def nameOf (imports : Imports) (file : String) : String :=
  match imports.find? file with
  | some known => known.name
  | none => (imports.fresh file).name

def markUsed (imports : Imports) (file : String) : Imports :=
  { imports with
    list := imports.list.map fun i => if i.file = file then { i with used := true } else i }

def addAll (imports : Imports) (files : List String) : Imports :=
  files.foldl add imports

end Imports
end ProtoTypings
