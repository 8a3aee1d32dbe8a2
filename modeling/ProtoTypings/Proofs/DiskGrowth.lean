import ProtoTypings.CommandLine.Disk
/-!
# What happens to a disk

A disk is changed in two ways: missing directories are made, and a file is
written. Nothing is removed, and what is a directory stays one, so a path that
leads somewhere goes on leading there.

**Growth.** `before.GrowsBy added after`: the entries `added` came one by one to
places that held nothing. Making directories is growth by directories; so is
writing a file where nothing was.

**Results.**
* `get?_put`: what a place holds after an entry is put.
* `Keeps.locate`: a path leads to the same place as long as directories stay.
* `widens_makePath`: making directories adds directories and nothing else, also
  when it fails.
* `makePath_again`: what was made once is found there, and nothing is done.
* `write_eq_ok_iff`: what a write does.
-/
namespace ProtoTypings.Disk

/-! ## Places -/

@[simp] theorem get?_root (disk : Disk) : disk.get? "" = some .directory := by simp [get?]

theorem ne_root {disk : Disk} {place : String} (h : disk.get? place ≠ some .directory) :
    place ≠ "" := by
  rintro rfl
  exact h (get?_root disk)

theorem lookup_filter_ne {entries : List (String × Entry)} {place other : String}
    (h : other ≠ place) : (entries.filter (·.1 ≠ place)).lookup other = entries.lookup other := by
  induction entries with
  | nil => rfl
  | cons head rest ih =>
    obtain ⟨key, entry⟩ := head
    by_cases hkey : key = place
    · have hother : (other == key) = false := beq_false_of_ne (hkey ▸ h)
      rw [List.filter_cons_of_neg (by simpa using hkey), ih, List.lookup_cons, hother]
    · rw [List.filter_cons_of_pos (by simpa using hkey), List.lookup_cons, List.lookup_cons, ih]

theorem get?_put {disk : Disk} {place : String} (h : disk.get? place ≠ some .directory)
    (entry : Entry) (other : String) :
    (disk.put place entry).get? other = if other = place then some entry else disk.get? other := by
  by_cases hother : other = place
  · have hroot := ne_root h
    simp [hother, get?, put, hroot]
  · rw [if_neg hother, get?, get?, put, List.lookup_cons, beq_false_of_ne hother,
      lookup_filter_ne hother]

theorem get?_put_self {disk : Disk} {place : String} (h : disk.get? place ≠ some .directory)
    (entry : Entry) : (disk.put place entry).get? place = some entry := by
  rw [get?_put h, if_pos rfl]

/-- A place that holds nothing has no entry in the list. -/
theorem entries_put_of_none {disk : Disk} {place : String} (h : disk.get? place = none)
    (entry : Entry) : (disk.put place entry).entries = (place, entry) :: disk.entries := by
  have hroot : place ≠ "" := ne_root (by rw [h]; simp)
  rw [get?, if_neg hroot, List.lookup_eq_none_iff] at h
  rw [put, List.filter_eq_self.2]
  intro x hx
  have hkey : place ≠ x.1 := bne_iff_ne.1 (h x hx)
  exact decide_eq_true hkey.symm

/-! ## Paths -/

/-- What is a directory stays one. -/
structure Keeps (before after : Disk) : Prop where
  home : after.home = before.home
  directory : ∀ place, before.get? place = some .directory → after.get? place = some .directory

theorem Keeps.trans {before mid after : Disk} (h : before.Keeps mid) (h' : mid.Keeps after) :
    before.Keeps after :=
  ⟨h'.home.trans h.home, fun place hplace => h'.directory place (h.directory place hplace)⟩

/-- An entry may be put where no directory is. -/
theorem keeps_put {disk : Disk} {place : String} (h : disk.get? place ≠ some .directory)
    (entry : Entry) : disk.Keeps (disk.put place entry) := by
  refine ⟨rfl, fun other hother => ?_⟩
  have hne : other ≠ place := by
    rintro rfl
    exact h hother
  rw [get?_put h, if_neg hne, hother]

theorem follow_cons_eq_ok_iff {disk : Disk} {place segment found : String} {rest : List String} :
    disk.follow place (segment :: rest) = .ok found ↔
      disk.get? place = some .directory ∧ ¬ Path.isLongSegment segment = true ∧
        disk.follow (step place segment) rest = .ok found := by
  rw [follow]
  split
  · next hplace =>
    split
    · next hlong => simp [hlong]
    · next hlong => simp [hplace, hlong]
  · next hplace => simp [hplace]
  · next hplace => simp [hplace]

theorem Keeps.follow {before after : Disk} (h : before.Keeps after) {segments : List String}
    {place found : String} (hfound : before.follow place segments = .ok found) :
    after.follow place segments = .ok found := by
  induction segments generalizing place with
  | nil => exact hfound
  | cons segment rest ih =>
    obtain ⟨hplace, hlong, hrest⟩ := follow_cons_eq_ok_iff.1 hfound
    exact follow_cons_eq_ok_iff.2 ⟨h.directory place hplace, hlong, ih hrest⟩

/-- A path that leads to a place goes on leading there. -/
theorem Keeps.locate {before after : Disk} (h : before.Keeps after) {path place : String}
    (hplace : before.locate path = .ok place) : after.locate path = .ok place := by
  unfold Disk.locate at hplace ⊢
  split at hplace
  · cases hplace
  · next hrefusal =>
    have hstart : after.start path = before.start path := by
      unfold start
      rw [h.home]
    simp only [hstart]
    exact h.follow hplace

theorem entry_eq_ok_iff {disk : Disk} {path : String} {entry : Entry} :
    disk.entry path = .ok entry ↔
      ∃ place, disk.locate path = .ok place ∧ disk.get? place = some entry := by
  unfold Disk.entry
  cases hlocate : disk.locate path with
  | error fault => simp [bind, Except.bind]
  | ok place =>
    simp only [bind, Except.bind, Except.ok.injEq, exists_eq_left']
    cases disk.get? place <;> simp

theorem isPresent_iff {disk : Disk} {path : String} :
    disk.isPresent path = true ↔
      ∃ place entry, disk.locate path = .ok place ∧ disk.get? place = some entry := by
  unfold isPresent
  cases hentry : disk.entry path with
  | ok entry =>
    obtain ⟨place, hplace, hget⟩ := entry_eq_ok_iff.1 hentry
    simp [hplace, hget]
  | error fault =>
    simp only [Bool.false_eq_true, false_iff]
    rintro ⟨place, entry, hplace, hget⟩
    rw [entry_eq_ok_iff.2 ⟨place, hplace, hget⟩] at hentry
    cases hentry

theorem read_eq_ok_iff {disk : Disk} {path : String} {content : ByteArray} :
    disk.read path = .ok content ↔
      ∃ place, disk.locate path = .ok place ∧ disk.get? place = some (.file content) := by
  unfold Disk.read
  cases hentry : disk.entry path with
  | error fault =>
    simp only [bind, Except.bind, reduceCtorEq, false_iff]
    rintro ⟨place, hplace, hget⟩
    rw [entry_eq_ok_iff.2 ⟨place, hplace, hget⟩] at hentry
    cases hentry
  | ok entry =>
    obtain ⟨place, hplace, hget⟩ := entry_eq_ok_iff.1 hentry
    cases entry <;> simp [bind, Except.bind, hplace, hget]

theorem isDirectory_iff {disk : Disk} {path : String} :
    disk.isDirectory path = true ↔
      ∃ place, disk.locate path = .ok place ∧ disk.get? place = some .directory := by
  unfold isDirectory
  rw [← entry_eq_ok_iff]
  split
  · next h => simp [h]
  · next h =>
    simp only [Bool.false_eq_true, false_iff]
    exact h

/-! ## Growth -/

/-- The entries `added` came to the disk, the last one first, each to a place that
held nothing. -/
inductive GrowsBy (before : Disk) : List (String × Entry) → Disk → Prop
  | refl : GrowsBy before [] before
  | put {added : List (String × Entry)} {mid : Disk} {place : String} (entry : Entry) :
      GrowsBy before added mid → mid.get? place = none →
      GrowsBy before ((place, entry) :: added) (mid.put place entry)

namespace GrowsBy

variable {before mid after : Disk} {added more : List (String × Entry)}

theorem trans (h : before.GrowsBy added mid) (h' : mid.GrowsBy more after) :
    before.GrowsBy (more ++ added) after := by
  induction h' with
  | refl => exact h
  | put entry _ hnone ih => exact ih.put entry hnone

theorem home (h : before.GrowsBy added after) : after.home = before.home := by
  induction h with
  | refl => rfl
  | put _ _ _ ih => exact ih

theorem entries (h : before.GrowsBy added after) : after.entries = added ++ before.entries := by
  induction h with
  | refl => rfl
  | put entry _ hnone ih => rw [entries_put_of_none hnone, ih, List.cons_append]

/-- What is there stays as it is. -/
theorem get? (h : before.GrowsBy added after) {place : String} {entry : Entry}
    (hplace : before.get? place = some entry) : after.get? place = some entry := by
  induction h with
  | refl => exact hplace
  | @put _ mid new _ _ hnone ih =>
    have hne : place ≠ new := by
      rintro rfl
      rw [ih] at hnone
      cases hnone
    rw [get?_put (by rw [hnone]; simp), if_neg hne, ih]

/-- What is there afterwards was there or came. -/
theorem get?_or_mem (h : before.GrowsBy added after) {place : String} {entry : Entry}
    (hplace : after.get? place = some entry) :
    before.get? place = some entry ∨ (place, entry) ∈ added := by
  induction h with
  | refl => exact .inl hplace
  | @put _ mid new newEntry _ hnone ih =>
    rw [get?_put (by rw [hnone]; simp)] at hplace
    by_cases hne : place = new
    · rw [if_pos hne, Option.some.injEq] at hplace
      right
      rw [hne, ← hplace]
      exact List.mem_cons_self
    · rw [if_neg hne] at hplace
      rcases ih hplace with hold | hmem
      · exact .inl hold
      · exact .inr (List.mem_cons_of_mem _ hmem)

theorem get?_eq_none (h : before.GrowsBy added after) {place : String}
    (hplace : after.get? place = none) : before.get? place = none := by
  cases hbefore : before.get? place with
  | none => rfl
  | some entry =>
    rw [h.get? hbefore] at hplace
    cases hplace

theorem keeps (h : before.GrowsBy added after) : before.Keeps after :=
  ⟨h.home, fun _ hplace => h.get? hplace⟩

end GrowsBy

/-- Directories were made, and nothing else happened. -/
def Widens (before after : Disk) : Prop :=
  ∃ added, before.GrowsBy added after ∧ ∀ x ∈ added, x.2 = .directory

theorem Widens.refl (disk : Disk) : disk.Widens disk := ⟨[], .refl, List.forall_mem_nil _⟩

theorem Widens.keeps {before after : Disk} (h : before.Widens after) : before.Keeps after :=
  h.choose_spec.1.keeps

/-- Files are neither made nor changed with the directories. -/
theorem Widens.file_iff {before after : Disk} (h : before.Widens after) {place : String}
    {content : ByteArray} :
    after.get? place = some (.file content) ↔ before.get? place = some (.file content) := by
  obtain ⟨added, hgrows, hadded⟩ := h
  constructor
  · intro hplace
    rcases hgrows.get?_or_mem hplace with hold | hmem
    · exact hold
    · cases hadded _ hmem
  · exact hgrows.get?

/-! ## Making directories -/

theorem widens_makeDirectories (segments : List String) :
    ∀ (disk : Disk) (place : String) (making : Bool),
      disk.Widens (disk.makeDirectories place making segments).2 := by
  induction segments with
  | nil => exact fun disk _ _ => .refl disk
  | cons segment rest ih =>
    intro disk place making
    unfold makeDirectories
    split
    · exact .refl disk
    · dsimp only
      split
      · next hnone =>
        obtain ⟨added, hgrows, hadded⟩ := ih (disk.put (step place segment) .directory)
          (step place segment) true
        refine ⟨_, (GrowsBy.refl.put .directory hnone).trans hgrows, ?_⟩
        intro x hx
        rcases List.mem_append.1 hx with hx | hx
        · exact hadded x hx
        · rw [List.mem_singleton.1 hx]
      · exact ih disk _ making
      · exact .refl disk

theorem widens_makePath (disk : Disk) (path : String) : disk.Widens (disk.makePath path).2 := by
  unfold makePath
  split
  · exact .refl disk
  · exact widens_makeDirectories _ disk _ _

/-- Directories that were made are passed by on the next occasion. -/
theorem makeDirectories_again (segments : List String) :
    ∀ (disk made after : Disk) (place : String) (making again : Bool),
      disk.makeDirectories place making segments = (.ok (), made) → made.Keeps after →
      after.makeDirectories place again segments = (.ok (), after) := by
  induction segments with
  | nil => exact fun _ _ _ _ _ _ _ _ => rfl
  | cons segment rest ih =>
    intro disk made after place making again hmade hkeeps
    unfold makeDirectories at hmade ⊢
    split at hmade
    · cases hmade
    next hlong =>
    rw [if_neg hlong]
    dsimp only at hmade ⊢
    -- the next place is a directory in the end, whether it was there or was made
    have hnext : after.get? (step place segment) = some .directory := by
      split at hmade
      · next hnone =>
        have hwidens := widens_makeDirectories rest
          (disk.put (step place segment) .directory) (step place segment) true
        rw [hmade] at hwidens
        refine hkeeps.directory _ (hwidens.keeps.directory _ ?_)
        exact get?_put_self (by rw [hnone]; simp) .directory
      · next hdirectory =>
        have hwidens := widens_makeDirectories rest disk (step place segment) making
        rw [hmade] at hwidens
        exact hkeeps.directory _ (hwidens.keeps.directory _ hdirectory)
      · cases hmade
    rw [hnext]
    split at hmade
    · exact ih _ _ _ _ _ _ hmade hkeeps
    · exact ih _ _ _ _ _ _ hmade hkeeps
    · cases hmade

theorem makePath_again {disk made after : Disk} {path : String}
    (h : disk.makePath path = (.ok (), made)) (hkeeps : made.Keeps after) :
    after.makePath path = (.ok (), after) := by
  have hwidens := widens_makePath disk path
  rw [h] at hwidens
  have hstart : after.start path = disk.start path := by
    unfold start
    rw [hkeeps.home, hwidens.keeps.home]
  unfold makePath at h ⊢
  split at h
  · cases h
  · next hrefusal =>
    rw [hstart]
    exact makeDirectories_again _ _ _ _ _ _ _ h hkeeps

/-! ## Writing -/

theorem write_eq_ok_iff {disk after : Disk} {path : String} {content : ByteArray} :
    disk.write path content = .ok after ↔
      ∃ place, disk.locate path = .ok place ∧ disk.get? place ≠ some .directory ∧
        after = disk.put place (.file content) := by
  unfold Disk.write
  cases hlocate : disk.locate path with
  | error fault => simp [bind, Except.bind]
  | ok place =>
    simp only [bind, Except.bind]
    split
    · next hdirectory => simp [hdirectory]
    · next hother =>
      simp only [Except.ok.injEq, exists_eq_left']
      exact ⟨fun h => ⟨hother, h.symm⟩, fun h => h.2.symm⟩

end ProtoTypings.Disk
