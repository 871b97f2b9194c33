import Mathlib.Tactic.SplitIfs
import FrontEnd.Source.Directory

set_option autoImplicit false

/-! # Reading from a directory

A `Directory` stands in for the file system wherever a run of the program is reasoned about, so it
has to behave as one. Following a path only ever leads to places that exist
(`Directory.follow_exists`). A path of plain names reads the file stored under these names and no
other (`Directory.read_eq_ok_iff`), it is told to be a directory exactly if it leads to one
(`Directory.read_eq_isDirectory_iff`), and in a directory made from files under plain paths it
reads the file that was given under the path itself, the last one if there are several
(`Directory.read_ofFiles_iff`).
-/

namespace FrontEnd

/-! ## Parts of paths

The parts of a path with the slashes between them again are the path, so a path is known by its
parts. -/

/-- Cutting a text at a separator is the splitting of the standard library. -/
theorem splitAtEach_eq_splitOn (separator : Char) (text : List Char) :
    splitAtEach separator text = text.splitOn separator := by
  induction text with
  | nil => exact (List.splitOn_nil separator).symm
  | cons c rest ih =>
      rw [splitAtEach, ih, List.splitOn_cons_eq_if_modifyHead]
      by_cases hc : c = separator
      · simp [hc]
      · have hbeq : (c == separator) = false := by simpa using hc
        rw [if_neg hc, if_neg (by simp [hbeq])]
        -- there always is a first piece, which the character joins
        cases hpieces : rest.splitOn separator with
        | nil => exact absurd hpieces (List.splitOn_ne_nil separator rest)
        | cons piece pieces => rfl

theorem toList_eq_intercalate_pathParts (path : String) :
    path.toList = ['/'].intercalate ((pathParts path).map String.toList) := by
  have htoList : (String.toList ∘ String.ofList : List Char → List Char) = id := by
    funext text
    simp
  rw [pathParts, List.map_map, htoList, List.map_id, splitAtEach_eq_splitOn]
  exact (List.intercalate_splitOn '/').symm

/-- A path is known by its parts. -/
theorem pathParts_inj {path other : String} : pathParts path = pathParts other ↔ path = other := by
  constructor
  · intro h
    apply String.toList_injective
    rw [toList_eq_intercalate_pathParts path, h, ← toList_eq_intercalate_pathParts other]
  · intro h
    rw [h]

theorem pathParts_ne_nil (path : String) : pathParts path ≠ [] := by
  rw [pathParts, splitAtEach_eq_splitOn]
  simp [List.splitOn_ne_nil]

/-- A part of a path that names something in the directory reached so far; the other parts stay
there or go up. -/
def IsName (part : String) : Prop := part ≠ "" ∧ part ≠ "." ∧ part ≠ ".."

/-- A path all of whose parts are names: it goes down from the working directory, without detours
and without a slash at its start or end. -/
def IsPlain (path : String) : Prop := ∀ part ∈ pathParts path, IsName part

namespace Directory

variable {d : Directory} {place next : Place} {names parts : List String} {part path : String}

/-! ## What exists

A step from a place that exists leads to one that exists, or fails. So a path never leads out of
what is there. -/

/-- A place that is there: a directory above, a directory on the way to a file, or a file. There are
no other directories, since a directory is known by its files alone. -/
def Exists (d : Directory) : Place → Prop
  | .above => True
  | .below names => d.isDirectory names = true ∨ (d.bytes? names).isSome = true

theorem isDirectory_iff :
    d.isDirectory names = true ↔
      names = [] ∨ ∃ f ∈ d.files, names <+: f.1 ∧ names.length < f.1.length := by
  simp [isDirectory]

theorem exists_mem_of_bytes? (h : (d.bytes? names).isSome = true) : ∃ f ∈ d.files, f.1 = names := by
  rw [bytes?, Option.isSome_map, List.find?_isSome] at h
  obtain ⟨f, hf, hnames⟩ := h
  exact ⟨f, hf, beq_iff_eq.mp hnames⟩

/-- What lies on the way to a place is a directory. -/
theorem isDirectory_of_exists (h : d.Exists (.below (names ++ part :: parts))) :
    d.isDirectory names = true := by
  have hshorter : names.length < (names ++ part :: parts).length := by simp
  have hway : ∀ f ∈ d.files, names ++ part :: parts <+: f.1 → d.isDirectory names = true := by
    intro f hf hfront
    refine isDirectory_iff.mpr (Or.inr ⟨f, hf, (List.prefix_append _ _).trans hfront, ?_⟩)
    have := hfront.length_le
    omega
  rcases h with h | h
  · rcases isDirectory_iff.mp h with h | ⟨f, hf, hfront, -⟩
    · simp at h
    · exact hway f hf hfront
  · obtain ⟨f, hf, hnames⟩ := exists_mem_of_bytes? h
    exact hway f hf (by simp [hnames])

/-- One part of a path leads from a place that is there to another one. -/
theorem enter_exists (h : d.Exists place) (henter : d.enter place part = .ok next) :
    d.Exists next := by
  cases place with
  | above =>
      rw [enter] at henter
      split_ifs at henter
      cases henter
      trivial
  | below names =>
      rw [enter] at henter
      split_ifs at henter with hdirectory hstay hup hempty hentry
      · cases henter
        exact h
      · cases henter
        trivial
      · -- going up from a directory leads to the one that holds it
        cases henter
        have hne : names ≠ [] := by simpa using hempty
        rw [← List.dropLast_concat_getLast hne] at h
        exact Or.inl (isDirectory_of_exists h)
      · cases henter
        exact Bool.or_eq_true_iff.mp hentry

/-- A path leads from a place that is there to another one. -/
theorem follow_exists (h : d.Exists place) (hfollow : d.follow place parts = .ok next) :
    d.Exists next := by
  induction parts generalizing place with
  | nil =>
      cases hfollow
      exact h
  | cons part parts ih =>
      rw [follow] at hfollow
      cases henter : d.enter place part with
      | error fault =>
          rw [henter] at hfollow
          cases hfollow
      | ok reached =>
          rw [henter] at hfollow
          exact ih (enter_exists h henter) hfollow

/-! ## Going down by names

A path of names only goes down. It leads to the place with these names below the first one, if there
is one. -/

theorem enter_name (hdirectory : d.isDirectory names = true) (hpart : IsName part) :
    d.enter (.below names) part =
      if d.isDirectory (names ++ [part]) || (d.bytes? (names ++ [part])).isSome
      then .ok (.below (names ++ [part])) else .error .notFound := by
  obtain ⟨hempty, hhere, hup⟩ := hpart
  simp [enter, hdirectory, hempty, hhere, hup]

/-- Names lead to the place they name, if it is there. -/
theorem follow_names (hparts : ∀ part ∈ parts, IsName part) (h : d.Exists (.below (names ++ parts))) :
    d.follow (.below names) parts = .ok (.below (names ++ parts)) := by
  induction parts generalizing names with
  | nil => rw [follow, List.append_nil]
  | cons part parts ih =>
      obtain ⟨hpart, hparts⟩ := List.forall_mem_cons.mp hparts
      have hdirectory : d.isDirectory names = true := isDirectory_of_exists h
      have happend : names ++ part :: parts = names ++ [part] ++ parts := by simp
      rw [happend] at h
      -- the next place is the end of the path, or a directory on the way to it
      have hentry : (d.isDirectory (names ++ [part]) || (d.bytes? (names ++ [part])).isSome) =
          true := by
        cases parts with
        | nil =>
            rw [List.append_nil] at h
            exact Bool.or_eq_true_iff.mpr h
        | cons _ _ => rw [isDirectory_of_exists h, Bool.true_or]
      rw [follow, enter_name hdirectory hpart, if_pos hentry, happend]
      exact ih hparts h

/-- Names lead nowhere else. -/
theorem eq_of_follow_names (hparts : ∀ part ∈ parts, IsName part)
    (h : d.follow (.below names) parts = .ok place) : place = .below (names ++ parts) := by
  induction parts generalizing names with
  | nil =>
      cases h
      rw [List.append_nil]
  | cons part parts ih =>
      obtain ⟨hpart, hparts⟩ := List.forall_mem_cons.mp hparts
      by_cases hdirectory : d.isDirectory names = true
      · rw [follow, enter_name hdirectory hpart] at h
        split_ifs at h with hentry
        · rw [ih hparts h]
          simp
      · obtain ⟨-, hhere, hup⟩ := hpart
        simp [follow, enter, hdirectory] at h

/-- Following names fails for want of a place or of a directory on the way to it. -/
theorem follow_ne_isDirectory : d.follow place parts ≠ .error .isDirectory := by
  induction parts generalizing place with
  | nil => simp [follow]
  | cons part parts ih =>
      rw [follow]
      cases henter : d.enter place part with
      | ok reached => exact ih
      | error fault =>
          intro h
          cases h
          cases place <;> simp only [enter] at henter <;> split_ifs at henter <;> cases henter

/-! ## Reading at plain paths -/

/-- The bytes of the file at a place; all other places are directories. -/
def bytesAt (d : Directory) : Place → Except ReadFault ByteArray
  | .above => .error .isDirectory
  | .below names => (d.bytes? names).elim (.error .isDirectory) .ok

/-- A plain path starts in the working directory, and reads what it leads to. -/
theorem read_of_isPlain (hplain : IsPlain path) :
    d.read path = (d.follow (.below []) (pathParts path)).bind d.bytesAt := by
  rw [read]
  obtain ⟨first, parts, hparts⟩ := List.exists_cons_of_ne_nil (pathParts_ne_nil path)
  -- a path that starts at the root has an empty first part
  have hfirst : first ≠ "" := by
    refine (hplain first ?_).1
    rw [hparts]
    exact List.mem_cons_self
  rw [hparts]
  split
  · contradiction
  · simp_all
  · rename_i h
    cases h
    rw [if_neg hfirst]
    cases d.follow (.below []) (first :: parts) with
    | error fault => rfl
    | ok place =>
        cases place with
        | above => rfl
        | below names =>
            show _ = d.bytesAt (.below names)
            rw [bytesAt]
            cases hbytes : d.bytes? names <;> simp [hbytes]

/-- A plain path to something that is there reads a file, unless it leads to a directory. -/
theorem read_of_exists (hplain : IsPlain path) (h : d.Exists (.below (pathParts path))) :
    d.read path = d.bytesAt (.below (pathParts path)) := by
  have hfollow : d.follow (.below []) (pathParts path) = .ok (.below (pathParts path)) :=
    follow_names hplain h
  rw [read_of_isPlain hplain, hfollow]
  rfl

/-- A plain path to nothing is refused before anything is read. -/
theorem read_of_not_exists (hplain : IsPlain path) (h : ¬ d.Exists (.below (pathParts path))) :
    ∃ fault, d.read path = .error fault ∧ fault ≠ .isDirectory := by
  rw [read_of_isPlain hplain]
  cases hfollow : d.follow (.below []) (pathParts path) with
  | error fault =>
      refine ⟨fault, rfl, ?_⟩
      rintro rfl
      exact follow_ne_isDirectory hfollow
  | ok place =>
      -- the working directory is there, so the place reached would be there as well
      have hroot : d.Exists (.below []) := Or.inl (isDirectory_iff.mpr (Or.inl rfl))
      have hthere : d.Exists place := follow_exists hroot hfollow
      have hplace : place = .below (pathParts path) := eq_of_follow_names hplain hfollow
      rw [hplace] at hthere
      exact absurd hthere h

/-- A plain path reads the file that is stored under its parts, and no other. -/
theorem read_eq_ok_iff {bytes : ByteArray} (hplain : IsPlain path) :
    d.read path = .ok bytes ↔ d.bytes? (pathParts path) = some bytes := by
  by_cases h : d.Exists (.below (pathParts path))
  · rw [read_of_exists hplain h, bytesAt]
    cases d.bytes? (pathParts path) <;> simp
  · obtain ⟨fault, hread, -⟩ := read_of_not_exists hplain h
    have hnone : d.bytes? (pathParts path) = none := by
      rw [← Option.not_isSome_iff_eq_none]
      intro hsome
      exact h (Or.inr hsome)
    rw [hread, hnone]
    simp

/-- A plain path is said to be a directory exactly if files are stored below it and none under the
path itself. -/
theorem read_eq_isDirectory_iff (hplain : IsPlain path) :
    d.read path = .error .isDirectory ↔
      d.bytes? (pathParts path) = none ∧ d.isDirectory (pathParts path) = true := by
  by_cases h : d.Exists (.below (pathParts path))
  · rw [read_of_exists hplain h, bytesAt]
    rcases h with h | h
    · cases d.bytes? (pathParts path) <;> simp [h]
    · obtain ⟨bytes, hbytes⟩ := Option.isSome_iff_exists.mp h
      simp [hbytes]
  · obtain ⟨fault, hread, hfault⟩ := read_of_not_exists hplain h
    have hno : d.isDirectory (pathParts path) ≠ true := fun hyes => h (Or.inl hyes)
    simp [hread, hfault, hno]

/-! ## Directories made from files -/

theorem filter_pathParts (hplain : IsPlain path) :
    (pathParts path).filter (fun part => part != "" && part != ".") = pathParts path := by
  refine List.filter_eq_self.mpr ?_
  intro part hpart
  obtain ⟨hempty, hhere, -⟩ := hplain part hpart
  simp [hempty, hhere]

/-- Under the parts of a path stands the last file that was given under the path. -/
theorem bytes?_ofFiles {files : List (String × ByteArray)} (hfiles : ∀ f ∈ files, IsPlain f.1) :
    (ofFiles files).bytes? (pathParts path) = files.reverse.lookup path := by
  rw [bytes?, ofFiles]
  have hreverse : ∀ f ∈ files.reverse, IsPlain f.1 := fun f hf => hfiles f (List.mem_reverse.mp hf)
  generalize files.reverse = latest at hreverse
  induction latest with
  | nil => rfl
  | cons f latest ih =>
      obtain ⟨hf, hlatest⟩ := List.forall_mem_cons.mp hreverse
      obtain ⟨other, bytes⟩ := f
      by_cases hpath : path = other
      · subst hpath
        simp [filter_pathParts hf]
      · have hparts : (pathParts other == pathParts path) = false := by
          rw [beq_eq_false_iff_ne, ne_eq, pathParts_inj]
          exact fun h => hpath h.symm
        have hbeq : (path == other) = false := beq_eq_false_iff_ne.mpr hpath
        rw [List.lookup_cons, hbeq]
        show _ = latest.lookup path
        rw [← ih hlatest]
        simp [filter_pathParts hf, hparts]

/-- A directory made from files reads them back: at a plain path, the last file that was given
under this path. -/
theorem read_ofFiles_iff {files : List (String × ByteArray)} {bytes : ByteArray}
    (hfiles : ∀ f ∈ files, IsPlain f.1) (hplain : IsPlain path) :
    (ofFiles files).read path = .ok bytes ↔ files.reverse.lookup path = some bytes := by
  rw [read_eq_ok_iff hplain, bytes?_ofFiles hfiles]

end Directory

end FrontEnd
