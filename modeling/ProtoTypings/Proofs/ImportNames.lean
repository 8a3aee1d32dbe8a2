import ProtoTypings.Proofs.ImportTable
/-!
# Names that imports get

The name of an import is found by trying: first what the path suggests, then the
suggestion with the numbers 2, 3, … behind it, until one is free. Different paths
can suggest one name, and a numbered name may be what a third path suggests, or be
reserved. So what a file gets depends on the files before it, but on nothing after.

**Search.** `Import.Search taken base name n found`: the search for a name that is
not taken has come to `name` with the number `n`, and ends with `found`. A search
that went on without end would have no such `found`.

**Results.**
* `Import.search_freeName`: every search ends, with the name that is given.
* `Import.exists_least_number`: a number is the least that is free.
* `Import.isName_freeName`: the name can stand in a program.
* `Imports.answers_eq_map`: every request for a file is answered alike.
* `Imports.allocated_asked`: all of it for a table after any requests.
-/
namespace ProtoTypings

namespace Import

/-! ## The search for a free name -/

/-- The search for a name that is not taken, at the name `name` with the number
`n`, ends with `found`. -/
inductive Search (taken : List String) (base : String) : String → Nat → String → Prop
  | free {name : String} {n : Nat} : name ∉ taken → Search taken base name n name
  | retry {name found : String} {n : Nat} : name ∈ taken →
      Search taken base (numbered base (n + 1)) (n + 1) found → Search taken base name n found

variable {taken : List String} {base : String}

/-- A suggestion that is taken gets the least number from 2 on that is free. -/
theorem exists_least_number (h : base ∈ taken) :
    ∃ n, 2 ≤ n ∧ freeName taken base = numbered base n ∧
      ∀ m, 2 ≤ m → m < n → numbered base m ∈ taken := by
  refine ⟨_, le_leastFree 2 _, by rw [freeName, if_pos h], fun m hm hlt => ?_⟩
  have hmem := mem_of_lt_leastFree hm hlt
  rw [List.mem_mergeSort, List.mem_filterMap] at hmem
  obtain ⟨name, hname, hnumber⟩ := hmem
  rwa [← numberOf?_eq_some_iff.1 hnumber]

/-- The search goes up to the first number that is free, `steps` away. -/
theorem search_numbered {n steps : Nat} (hfree : numbered base (n + steps) ∉ taken)
    (h : ∀ m, n ≤ m → m < n + steps → numbered base m ∈ taken) :
    Search taken base (numbered base n) n (numbered base (n + steps)) := by
  induction steps generalizing n with
  | zero => exact .free hfree
  | succ steps ih =>
    have hnext : n + (steps + 1) = n + 1 + steps := by omega
    rw [hnext] at hfree h ⊢
    exact .retry (h n (Nat.le_refl n) (by omega)) (ih hfree fun m hm => h m (by omega))

/-- **Every search ends**, and with the name that the import gets. -/
theorem search_freeName (taken : List String) (base : String) :
    Search taken base base 1 (freeName taken base) := by
  have hfree := freeName_notMem taken base
  by_cases h : base ∈ taken
  · obtain ⟨n, hn, hname, hbelow⟩ := exists_least_number h
    obtain ⟨steps, rfl⟩ := Nat.exists_eq_add_of_le hn
    rw [hname] at hfree ⊢
    exact .retry h (search_numbered hfree hbelow)
  · rw [freeName, if_neg h]
    exact .free h

/-! ## Characters of a name -/

/-- A name of letters, digits and underscores that does not begin with a digit. -/
structure IsName (name : String) : Prop where
  nonempty : name ≠ ""
  chars : ∀ c ∈ name.toList, c.isAlpha = true ∨ c.isDigit = true ∨ c = '_'
  start : ∀ c, name.toList.head? = some c → c.isDigit = false

theorem isNameChar_iff {c : Char} :
    isNameChar c = true ↔ c.isAlpha = true ∨ c.isDigit = true ∨ c = '_' := by
  simp [isNameChar, Char.isAlphanum, or_assoc]

/-- What a path suggests begins with no digit, and all of it can stand in a name. -/
theorem toList_suggestion (path : String) :
    ∃ c cs, (suggestion path).toList = c :: cs ∧ c.isDigit = false ∧
      ∀ d ∈ c :: cs, isNameChar d = true := by
  have hchars : ∀ d ∈ (stem path).toList.map (fun c => if isNameChar c then c else '_'),
      isNameChar d = true := by
    intro d hd
    obtain ⟨c, -, rfl⟩ := List.mem_map.1 hd
    by_cases hc : isNameChar c = true
    · rw [if_pos hc, hc]
    · rw [if_neg hc]
      rfl
  unfold suggestion
  generalize (stem path).toList.map (fun c => if isNameChar c then c else '_') = cs at hchars ⊢
  cases cs with
  | nil => exact ⟨'_', [], rfl, rfl, List.forall_mem_singleton.2 rfl⟩
  | cons c cs =>
    cases hdigit : c.isDigit with
    | true => exact ⟨'_', c :: cs, by simp [hdigit], rfl, List.forall_mem_cons.2 ⟨rfl, hchars⟩⟩
    | false => exact ⟨c, cs, by simp [hdigit], hdigit, hchars⟩

theorem isName_suggestion (path : String) : IsName (suggestion path) := by
  obtain ⟨c, cs, htoList, hdigit, hchars⟩ := toList_suggestion path
  refine ⟨?_, ?_, ?_⟩
  · rw [← String.toList_eq_nil_iff.ne, htoList]
    exact List.cons_ne_nil c cs
  · rw [htoList]
    exact fun d hd => isNameChar_iff.1 (hchars d hd)
  · rw [htoList]
    rintro d ⟨⟩
    exact hdigit

theorem IsName.numbered (h : IsName base) (n : Nat) : IsName (numbered base n) := by
  have htoList : (Import.numbered base n).toList =
      base.toList ++ '_' :: Nat.toDigits 10 n := by
    simp [Import.numbered]
  have hne : base.toList ≠ [] := by simpa using h.nonempty
  refine ⟨?_, ?_, ?_⟩
  · rw [← String.toList_eq_nil_iff.ne, htoList]
    exact List.append_ne_nil_of_left_ne_nil hne _
  · rw [htoList]
    intro c hc
    rcases List.mem_append.1 hc with hc | hc
    · exact h.chars c hc
    · rcases List.mem_cons.1 hc with rfl | hc
      · exact .inr (.inr rfl)
      · exact .inr (.inl (Nat.isDigit_of_mem_toDigits (by decide) (by decide) hc))
  · rw [htoList, List.head?_append_of_ne_nil _ hne]
    exact h.start

theorem isName_freeName (h : IsName base) (taken : List String) : IsName (freeName taken base) := by
  by_cases hbase : base ∈ taken
  · obtain ⟨n, -, hname, -⟩ := exists_least_number hbase
    rw [hname]
    exact h.numbered n
  · rwa [freeName, if_neg hbase]

end Import

/-! ## Requests for names -/

namespace Imports

variable {imports : Imports}

/-- What the requests for a list of files are answered, one after the other. -/
def answers (imports : Imports) : List String → List String
  | [] => []
  | file :: rest => imports.nameOf file :: (imports.add file).answers rest

theorem nameOf_of_notMem {file : String} (h : file ∉ imports.files) :
    imports.nameOf file = Import.freeName imports.taken (Import.suggestion file) := by
  rw [nameOf, find?_eq_none_iff.2 h]
  rfl

/-- The import that a request makes has the name that was the answer. -/
theorem nameOf_add_self (imports : Imports) (file : String) :
    (imports.add file).nameOf file = imports.nameOf file := by
  by_cases h : file ∈ imports.files
  · rw [add_of_mem h]
  · have hfind : (imports.add file).find? file = some (imports.fresh file) := by
      have hnone := find?_eq_none_iff.2 h
      rw [find?] at hnone
      rw [add_of_notMem h, find?, List.find?_append, hnone]
      simp [fresh]
    rw [nameOf, hfind, nameOf, find?_eq_none_iff.2 h]

/-- A file that has a name keeps it. -/
theorem nameOf_add_of_mem {file : String} (h : file ∈ imports.files) (other : String) :
    (imports.add other).nameOf file = imports.nameOf file := by
  obtain ⟨added, hadded⟩ := list_add_prefix imports other
  cases hfind : imports.find? file with
  | none => exact absurd h (find?_eq_none_iff.1 hfind)
  | some known =>
    have hfind' : (imports.add other).find? file = some known := by
      rw [find?] at hfind
      rw [find?, hadded, List.find?_append, hfind, Option.some_or]
    rw [nameOf, nameOf, hfind, hfind']

theorem mem_files_add_self (imports : Imports) (file : String) :
    file ∈ (imports.add file).files := by
  rw [files_add]
  split
  · next h => exact h
  · simp

theorem mem_files_add {file : String} (h : file ∈ imports.files) (other : String) :
    file ∈ (imports.add other).files := by
  rw [files_add]
  split
  · exact h
  · exact List.mem_append_left _ h

theorem nameOf_addAll_of_mem {file : String} (h : file ∈ imports.files) (others : List String) :
    (imports.addAll others).nameOf file = imports.nameOf file := by
  induction others generalizing imports with
  | nil => rfl
  | cons other rest ih =>
    exact (ih (mem_files_add h other)).trans (nameOf_add_of_mem h other)

/-- **Requests are answered alike.** Whenever a file is asked for, the answer is
the name that the file has in the end. -/
theorem answers_eq_map (imports : Imports) (files : List String) :
    imports.answers files = files.map (imports.addAll files).nameOf := by
  induction files generalizing imports with
  | nil => rfl
  | cons file rest ih =>
    have hname : ((imports.add file).addAll rest).nameOf file = imports.nameOf file :=
      (nameOf_addAll_of_mem (mem_files_add_self imports file) rest).trans
        (nameOf_add_self imports file)
    rw [answers, ih, List.map_cons]
    exact congrArg (· :: _) hname.symm

theorem isName_add (h : ∀ i ∈ imports.list, Import.IsName i.name) (file : String) :
    ∀ i ∈ (imports.add file).list, Import.IsName i.name := by
  by_cases hmem : file ∈ imports.files
  · rwa [add_of_mem hmem]
  · rw [add_of_notMem hmem]
    intro i hi
    rcases List.mem_append.1 hi with hi | hi
    · exact h i hi
    · rw [List.mem_singleton.1 hi]
      exact Import.isName_freeName (Import.isName_suggestion file) _

theorem isName_addAll (h : ∀ i ∈ imports.list, Import.IsName i.name) (files : List String) :
    ∀ i ∈ (imports.addAll files).list, Import.IsName i.name := by
  induction files generalizing imports with
  | nil => exact h
  | cons file rest ih => exact ih (isName_add h file)

/-! ## Tables that start empty -/

/-- The table after requests for the files of a list, from an empty table with
reserved names. -/
def asked (reserved files : List String) : Imports :=
  Imports.addAll { reserved := reserved } files

theorem files_asked (reserved files : List String) :
    (asked reserved files).files = files.eraseDups := by
  rw [asked, files_addAll]
  simp [Imports.files]

theorem wellFormed_asked (reserved files : List String) : (asked reserved files).WellFormed := by
  refine WellFormed.addAll ⟨?_, ?_, ?_, ?_⟩ files <;> simp [Imports.files]

theorem reserved_asked (reserved files : List String) :
    (asked reserved files).reserved = reserved :=
  reserved_addAll _ files

/-- A file that is asked for the first time gets the name that is free then. -/
theorem nameOf_asked {file : String} {before : List String} (h : file ∉ before)
    (reserved after : List String) :
    (asked reserved (before ++ file :: after)).nameOf file =
      Import.freeName (asked reserved before).taken (Import.suggestion file) := by
  have hnew : file ∉ (asked reserved before).files := by
    rwa [files_asked, List.mem_eraseDups]
  have hsplit : asked reserved (before ++ file :: after) =
      ((asked reserved before).add file).addAll after := by
    rw [asked, addAll, List.foldl_append]
    rfl
  rw [hsplit, nameOf_addAll_of_mem (mem_files_add_self _ file), nameOf_add_self,
    nameOf_of_notMem hnew]

/-- The name `name` is the one that a path gets while the names `taken` are taken. -/
structure NamedAt (taken : List String) (file name : String) : Prop where
  /-- The search for it ends. -/
  search : Import.Search taken (Import.suggestion file) (Import.suggestion file) 1 name
  suggested : Import.suggestion file ∉ taken → name = Import.suggestion file
  numbered : Import.suggestion file ∈ taken →
    ∃ n, 2 ≤ n ∧ name = Import.numbered (Import.suggestion file) n ∧ name ∉ taken ∧
      ∀ m, 2 ≤ m → m < n → Import.numbered (Import.suggestion file) m ∈ taken

theorem namedAt_freeName (taken : List String) (file : String) :
    NamedAt taken file (Import.freeName taken (Import.suggestion file)) where
  search := Import.search_freeName taken _
  suggested h := by rw [Import.freeName, if_neg h]
  numbered h := by
    obtain ⟨n, hn, hname, hbelow⟩ := Import.exists_least_number h
    exact ⟨n, hn, hname, Import.freeName_notMem taken _, hbelow⟩

/-- What holds of a table after requests for files. -/
structure Allocated (reserved requests : List String) (table : Imports) : Prop where
  /-- One import for each file, in the order of the first requests. -/
  files : table.files = requests.eraseDups
  names_nodup : (table.list.map (·.name)).Nodup
  not_reserved : ∀ i ∈ table.list, i.name ∉ reserved
  isName : ∀ i ∈ table.list, Import.IsName i.name
  /-- All requests for a file are answered by its name in the table. -/
  answers : Imports.answers { reserved := reserved } requests = requests.map table.nameOf
  nameOf : ∀ i ∈ table.list, table.nameOf i.file = i.name
  /-- One more request for any of them changes nothing. -/
  again : ∀ file ∈ requests, table.add file = table
  /-- A file has the name that was found free at its first request. -/
  named : ∀ before file after, requests = before ++ file :: after → file ∉ before →
    NamedAt (reserved ++ (asked reserved before).list.map (·.name)) file (table.nameOf file)

/-- **Tables of imports.** Whatever names are reserved and whatever files are asked
for, in any order and with any repetitions: every search for a name ends, each
file has one import, and names are proper, different and not reserved. -/
theorem allocated_asked (reserved requests : List String) :
    Allocated reserved requests (asked reserved requests) := by
  have hwell := wellFormed_asked reserved requests
  refine ⟨files_asked reserved requests, hwell.names_nodup, fun i hi => ?_,
    isName_addAll (List.forall_mem_nil _) requests, answers_eq_map _ requests,
    fun i hi => nameOf_of_mem hwell hi, fun file hfile => ?_, ?_⟩
  · rw [← reserved_asked reserved requests]
    exact hwell.not_reserved i hi
  · refine add_of_mem ?_
    rwa [files_asked, List.mem_eraseDups]
  · rintro before file after rfl hnew
    have htaken : reserved ++ (asked reserved before).list.map (·.name) =
        (asked reserved before).taken := by
      rw [taken, reserved_asked]
    rw [nameOf_asked hnew, htaken]
    exact namedAt_freeName _ file

example :
    Imports.answers { reserved := ["a_b"] } ["a_b_2.proto", "a/b.proto", "a-b.proto", "a/b.proto"] =
      ["a_b_2", "a_b_3", "a_b_4", "a_b_3"] := by
  cbv

end Imports
end ProtoTypings
