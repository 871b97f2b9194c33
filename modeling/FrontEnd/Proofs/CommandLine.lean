import Mathlib.Data.List.Forall2
import FrontEnd.CommandLine
import FrontEnd.Proofs.Source.Directory

set_option autoImplicit false

/-! # Runs of the program

What a run of the program comes to, for every request and every way to read files. The files of a
request are arguments of the program, in their order (`Request.files_of_ofArgs?`). A run looks at
no other files (`Request.run_congr`), so it is enough to have read these beforehand, as the program
does (`Request.run_of_contents`). The run fails with 2 exactly if one of them cannot be loaded, and
then says so of the first of them (`Request.exit_run_eq_two_iff`, `Request.run_of_error`); it fails
with 1 exactly if all are loaded and checked and one has an error (`Request.exit_run_eq_one_iff`).
Over a directory that holds texts, the run is the one on these texts (`Request.run_ofTexts`).
-/

namespace FrontEnd

open CommandLine

variable {read other : String → Except ReadFault ByteArray} {paths args : List String}
  {path message : String} {buffers : List Buffer} {r next : Request} {noColour : Option String}

/-! ## The files of a request

Taking arguments only ever adds files to a request, each of them one of the arguments. -/

/-- The request `next` has the files of `r` and behind them some of the given arguments. -/
def CommandLine.Request.Gains (r next : Request) (args : List String) : Prop :=
  ∃ added, next.files = r.files ++ added ∧ added.Sublist args ∧ "" ∉ added

namespace CommandLine.Request

theorem gains_of_files_eq (h : next.files = r.files) (args : List String) : r.Gains next args :=
  ⟨[], by rw [h, List.append_nil], List.nil_sublist args, List.not_mem_nil⟩

/-- What an argument adds comes before what the next ones add. -/
theorem Gains.cons {arg : String} {last : Request} (h : r.Gains next [arg])
    (hrest : next.Gains last args) : r.Gains last (arg :: args) := by
  obtain ⟨added, hfiles, hargs, hempty⟩ := h
  obtain ⟨more, hmore, hrest, hempty'⟩ := hrest
  refine ⟨added ++ more, ?_, hargs.append hrest, ?_⟩
  · rw [hmore, hfiles, List.append_assoc]
  · rw [List.mem_append, not_or]
    exact ⟨hempty, hempty'⟩

theorem addFile_gains (h : r.addFile path = some next) : r.Gains next [path] := by
  rw [addFile] at h
  split at h
  · cases h
  · rename_i hpath
    cases h
    refine ⟨[path], rfl, List.Sublist.refl _, ?_⟩
    rw [List.mem_singleton]
    exact fun h => hpath h.symm

theorem addFiles_gains (h : r.addFiles paths = some next) : r.Gains next paths := by
  induction paths generalizing r with
  | nil =>
      cases h
      exact gains_of_files_eq rfl []
  | cons path rest ih =>
      obtain ⟨added, hadded, hrest⟩ := Option.bind_eq_some_iff.mp h
      exact (addFile_gains hadded).cons (ih hrest)

/-- A flag that is refused when it is set already leaves the files as they are. -/
theorem files_of_refused {given : Bool} {flagged : Request}
    (h : (if given then none else some flagged) = some next) (hflagged : flagged.files = r.files) :
    next.files = r.files := by
  split at h
  · cases h
  · cases h
    exact hflagged

theorem setFlag_files {name : String} (h : r.setFlag name = some next) : next.files = r.files := by
  unfold setFlag at h
  split at h
  · exact files_of_refused h rfl
  · exact files_of_refused h rfl
  · exact files_of_refused h rfl
  · exact files_of_refused h rfl
  · cases h

theorem setLetters_files {letters : List Char} (h : r.setLetters letters = some next) :
    next.files = r.files := by
  induction letters generalizing r with
  | nil =>
      cases h
      rfl
  | cons c rest ih =>
      obtain ⟨set, hset, hrest⟩ := Option.bind_eq_some_iff.mp h
      obtain ⟨name, -, hname⟩ := Option.bind_eq_some_iff.mp hset
      rw [ih hrest, setFlag_files hname]

theorem addArgs_gains (h : r.addArgs args = some next) : r.Gains next args := by
  induction args generalizing r with
  | nil =>
      cases h
      exact gains_of_files_eq rfl []
  | cons arg rest ih =>
      rw [addArgs] at h
      split at h
      · -- behind two dashes there are only files, and the dashes are none
        exact (gains_of_files_eq rfl [arg]).cons (addFiles_gains h)
      · obtain ⟨set, hset, hrest⟩ := Option.bind_eq_some_iff.mp h
        exact (gains_of_files_eq (setFlag_files hset) [arg]).cons (ih hrest)
      · obtain ⟨set, hset, hrest⟩ := Option.bind_eq_some_iff.mp h
        exact (gains_of_files_eq (setLetters_files hset) [arg]).cons (ih hrest)
      · obtain ⟨added, hadded, hrest⟩ := Option.bind_eq_some_iff.mp h
        exact (addFile_gains hadded).cons (ih hrest)

/-- A request names at least one file, every file is one of the arguments, in their order, and no
file has the empty path. -/
theorem files_of_ofArgs? (h : ofArgs? args = some r) :
    r.files ≠ [] ∧ r.files.Sublist args ∧ "" ∉ r.files := by
  rw [ofArgs?] at h
  split at h
  · cases h
  · rename_i taken htaken
    split at h
    · cases h
    · rename_i hgood
      cases h
      obtain ⟨added, hfiles, hargs, hempty⟩ := addArgs_gains htaken
      have hadded : r.files = added := hfiles
      refine ⟨?_, ?_, ?_⟩
      · intro hnil
        simp [hnil] at hgood
      · rw [hadded]
        exact hargs
      · rw [hadded]
        exact hempty

end CommandLine.Request

/-! ## Loading all files

Loading goes through the files in their order and ends at the first one that fails. If none fails,
there is a buffer for each of them. -/

/-- The buffers are those of the files, one for each. -/
def CommandLine.Loads (read : String → Except ReadFault ByteArray) (paths : List String)
    (buffers : List Buffer) : Prop :=
  List.Forall₂ (fun path b => Buffer.load read path = .ok b) paths buffers

/-- The buffers are those that the files give, no more and no fewer. -/
theorem CommandLine.Loads.mem_iff (h : Loads read paths buffers) {b : Buffer} :
    b ∈ buffers ↔ ∃ path ∈ paths, Buffer.load read path = .ok b := by
  induction h with
  | nil => simp
  | cons hload _ ih => simp [ih, hload, eq_comm]

theorem CommandLine.Loads.exists_of_mem (h : Loads read paths buffers) (hpath : path ∈ paths) :
    ∃ b, Buffer.load read path = .ok b := by
  induction h with
  | nil => cases hpath
  | cons hload _ ih =>
      rcases List.mem_cons.mp hpath with rfl | hpath
      · exact ⟨_, hload⟩
      · exact ih hpath

/-- All files are loaded if each of them is. -/
theorem CommandLine.loadAll_eq_ok_iff :
    loadAll read paths = .ok buffers ↔ Loads read paths buffers := by
  rw [Loads]
  induction paths generalizing buffers with
  | nil => cases buffers <;> simp [loadAll]
  | cons path rest ih =>
      rw [loadAll]
      cases hload : Buffer.load read path with
      | error e => cases buffers <;> simp [hload]
      | ok buffer =>
          cases hrest : loadAll read rest with
          | error e => cases buffers <;> simp [← ih, hrest]
          | ok rest => cases buffers <;> simp [← ih, hrest, hload]

/-- Loading stops at the first file that cannot be loaded, with what is to be said of it. -/
theorem CommandLine.loadAll_eq_error_iff :
    loadAll read paths = .error message ↔
      ∃ front path back e, paths = front ++ path :: back ∧
        (∀ earlier ∈ front, ∃ b, Buffer.load read earlier = .ok b) ∧
        Buffer.load read path = .error e ∧ message = loadFailure path e := by
  constructor
  · intro h
    -- the first file that fails ends the loading: by induction on the files in front of it
    induction paths with
    | nil => cases h
    | cons path rest ih =>
        rw [loadAll] at h
        cases hload : Buffer.load read path with
        | error e =>
            rw [hload] at h
            cases h
            exact ⟨[], path, rest, e, rfl, by simp, hload, rfl⟩
        | ok b =>
            rw [hload] at h
            cases hrest : loadAll read rest with
            | ok rest =>
                rw [hrest] at h
                cases h
            | error later =>
                rw [hrest] at h
                cases h
                obtain ⟨front, failed, back, e, hpaths, hfront, hfailed, hmessage⟩ := ih hrest
                refine ⟨path :: front, failed, back, e, by rw [hpaths]; rfl, ?_, hfailed, hmessage⟩
                exact List.forall_mem_cons.mpr ⟨⟨b, hload⟩, hfront⟩
  · rintro ⟨front, path, back, e, rfl, hfront, hload, rfl⟩
    induction front with
    | nil =>
        show loadAll read (path :: back) = _
        rw [loadAll, hload]
    | cons earlier front ih =>
        obtain ⟨⟨b, hearlier⟩, hfront⟩ := List.forall_mem_cons.mp hfront
        show loadAll read (earlier :: (front ++ path :: back)) = _
        rw [loadAll, hearlier, ih hfront]

/-- Loading reads the named files and nothing else. -/
theorem CommandLine.loadAll_congr (h : ∀ path ∈ paths, read path = other path) :
    loadAll read paths = loadAll other paths := by
  induction paths with
  | nil => rfl
  | cons path rest ih =>
      obtain ⟨hpath, hrest⟩ := List.forall_mem_cons.mp h
      rw [loadAll, loadAll, ih hrest, Buffer.load, Buffer.load, hpath]

/-! ## Runs

The exit code tells how the run has gone: 2 if a file cannot be loaded, 1 if the files were checked
and one of them has an error, and 0 otherwise. -/

namespace CommandLine.Request

/-- A run depends on the files of its request alone. -/
theorem run_congr (h : ∀ path ∈ r.files, read path = other path) :
    r.run noColour read = r.run noColour other := by
  rw [run, run, loadAll_congr h]

/-- It is enough to have read the files of the request beforehand. -/
theorem run_of_contents :
    r.run noColour (fun path =>
        ((r.files.map fun file => (file, read file)).lookup path).getD (.error .notFound)) =
      r.run noColour read := by
  apply run_congr
  intro path hpath
  have hlookup : ∀ files : List String, path ∈ files →
      (files.map fun file => (file, read file)).lookup path = some (read path) := by
    intro files hmem
    induction files with
    | nil => cases hmem
    | cons file files ih =>
        rw [List.map_cons, List.lookup_cons]
        by_cases heq : path = file
        · rw [heq, beq_self_eq_true]
        · rw [beq_eq_false_iff_ne.mpr heq]
          exact ih (List.mem_of_ne_of_mem heq hmem)
  rw [hlookup r.files hpath]
  rfl

/-- The run over files that are all loaded: their tokens if these are asked for, or else what is
found in them. -/
theorem run_of_loads (h : Loads read r.files buffers) :
    r.run noColour read =
      if r.tokens then ⟨0, String.join (buffers.map Buffer.listing), ""⟩
      else check (r.settings noColour) buffers := by
  rw [run, loadAll_eq_ok_iff.mpr h]

/-- The run over files of which some cannot be loaded: nothing is listed or checked, and the first
of these files is named. -/
theorem run_of_error {front back : List String} {e : LoadError}
    (hfiles : r.files = front ++ path :: back)
    (hfront : ∀ earlier ∈ front, ∃ b, Buffer.load read earlier = .ok b)
    (hload : Buffer.load read path = .error e) :
    r.run noColour read = ⟨2, "", loadFailure path e⟩ := by
  rw [run, loadAll_eq_error_iff.mpr ⟨front, path, back, e, hfiles, hfront, hload, rfl⟩]

/-- The files are all loaded, or there is a first one that is not. -/
theorem loads_or_error (read : String → Except ReadFault ByteArray) (r : Request) :
    (∃ buffers, Loads read r.files buffers) ∨
      ∃ front path back e, r.files = front ++ path :: back ∧
        (∀ earlier ∈ front, ∃ b, Buffer.load read earlier = .ok b) ∧
        Buffer.load read path = .error e := by
  cases h : loadAll read r.files with
  | ok buffers => exact Or.inl ⟨buffers, loadAll_eq_ok_iff.mp h⟩
  | error message =>
      obtain ⟨front, path, back, e, hfiles, hfront, hload, -⟩ := loadAll_eq_error_iff.mp h
      exact Or.inr ⟨front, path, back, e, hfiles, hfront, hload⟩

/-- The number of a run over files that are all loaded. -/
theorem exit_run_of_loads
    (h : Loads read r.files buffers) :
    (r.run noColour read).exit =
      if r.tokens || buffers.all (fun b => b.parse.isOk) then 0 else 1 := by
  rw [run_of_loads h]
  cases r.tokens with
  | true => rfl
  | false => simp [check, List.all_map, Function.comp_def]

/-- A run fails with 2 exactly if a file cannot be loaded. -/
theorem exit_run_eq_two_iff :
    (r.run noColour read).exit = 2 ↔ ∃ path ∈ r.files, ∃ e, Buffer.load read path = .error e := by
  rcases loads_or_error read r with
    ⟨buffers, hloads⟩ | ⟨front, path, back, e, hfiles, hfront, hload⟩
  · rw [exit_run_of_loads hloads]
    constructor
    · intro h
      split at h <;> cases h
    · rintro ⟨path, hpath, e, hload⟩
      obtain ⟨b, hb⟩ := hloads.exists_of_mem hpath
      rw [hb] at hload
      cases hload
  · rw [run_of_error hfiles hfront hload]
    constructor
    · intro _
      exact ⟨path, by simp [hfiles], e, hload⟩
    · intro _
      rfl

/-- A run fails with 1 exactly if it checks its files, they are all loaded, and one of them has an
error. -/
theorem exit_run_eq_one_iff :
    (r.run noColour read).exit = 1 ↔
      r.tokens = false ∧ (∀ path ∈ r.files, ∃ b, Buffer.load read path = .ok b) ∧
        ∃ path ∈ r.files, ∃ b, Buffer.load read path = .ok b ∧ b.parse.errors ≠ 0 := by
  rcases loads_or_error read r with
    ⟨buffers, hloads⟩ | ⟨front, path, back, e, hfiles, hfront, hload⟩
  · have hall : ∀ path ∈ r.files, ∃ b, Buffer.load read path = .ok b :=
      fun _ => hloads.exists_of_mem
    have hclean : buffers.all (fun b => b.parse.isOk) = false ↔
        ∃ path ∈ r.files, ∃ b, Buffer.load read path = .ok b ∧ b.parse.errors ≠ 0 := by
      rw [List.all_eq_false]
      constructor
      · rintro ⟨b, hb, herrors⟩
        obtain ⟨path, hpath, hload⟩ := hloads.mem_iff.mp hb
        exact ⟨path, hpath, b, hload, by simpa [Report.isOk] using herrors⟩
      · rintro ⟨path, hpath, b, hload, herrors⟩
        exact ⟨b, hloads.mem_iff.mpr ⟨path, hpath, hload⟩, by simpa [Report.isOk] using herrors⟩
    rw [exit_run_of_loads hloads, ← hclean, and_iff_right hall]
    cases r.tokens <;> cases buffers.all (fun b => b.parse.isOk) <;> simp
  · -- a file that cannot be loaded fails the run with 2, not with 1
    rw [run_of_error hfiles hfront hload]
    constructor
    · intro h
      cases h
    · rintro ⟨-, hall, -⟩
      obtain ⟨b, hb⟩ := hall path (by simp [hfiles])
      rw [hb] at hload
      cases hload

end CommandLine.Request

/-! ## Runs over stored texts

The paths of a request are looked up in a directory. If it was made from texts, then what a path
leads to is one of them, whatever the request asks for. -/

/-- The directory that holds texts under paths, in UTF-8. Of two texts under one path the later one
stays. -/
def Directory.ofTexts (texts : List (String × String)) : Directory :=
  Directory.ofFiles (texts.map fun f => (f.1, f.2.toUTF8))

/-- The bytes of a text are read as the text. -/
theorem fromUTF8?_toUTF8 (text : String) : String.fromUTF8? text.toUTF8 = some text := by
  rw [String.fromUTF8?]
  exact dif_pos text.isValidUTF8

theorem lookup_map_snd {texts : List (String × String)} {text : String}
    (h : texts.lookup path = some text) :
    (texts.map fun f => (f.1, f.2.toUTF8)).lookup path = some text.toUTF8 := by
  induction texts with
  | nil => cases h
  | cons f texts ih =>
      rw [List.lookup_cons] at h
      rw [List.map_cons, List.lookup_cons]
      cases hpath : path == f.1 with
      | true => simp_all
      | false => simp_all

/-- A text that is stored under a plain path is loaded from there, and its buffer is named by the
last part of the path. -/
theorem Directory.load_ofTexts {texts : List (String × String)} {text : String}
    (htexts : ∀ f ∈ texts, IsPlain f.1) (hplain : IsPlain path)
    (h : texts.reverse.lookup path = some text) :
    Buffer.load (Directory.ofTexts texts).read path = .ok (Buffer.ofText (fileName path) text) := by
  have hfiles : ∀ f ∈ texts.map (fun f => (f.1, f.2.toUTF8)), IsPlain f.1 := by
    intro f hf
    obtain ⟨stored, hstored, rfl⟩ := List.mem_map.mp hf
    exact htexts stored hstored
  have hread : (Directory.ofTexts texts).read path = .ok text.toUTF8 := by
    rw [Directory.ofTexts, Directory.read_ofFiles_iff hfiles hplain, ← List.map_reverse]
    exact lookup_map_snd h
  rw [Buffer.load, hread]
  simp only [fromUTF8?_toUTF8]

/-- The name of a buffer that is loaded from a plain path. -/
theorem fileName_of_isPlain (hplain : IsPlain path) :
    fileName path = (pathParts path).getLast (pathParts_ne_nil path) := by
  have hlast := hplain _ (List.getLast_mem (pathParts_ne_nil path))
  rw [fileName, Directory.filter_pathParts hplain,
    List.getLast?_eq_some_getLast (pathParts_ne_nil path)]
  exact if_neg hlast.2.2

/-- Over a directory that holds texts, a request is answered from these texts. -/
theorem CommandLine.Request.run_ofTexts {texts : List (String × String)} {textOf : String → String}
    (htexts : ∀ f ∈ texts, IsPlain f.1)
    (hfiles : ∀ path ∈ r.files, IsPlain path ∧ texts.reverse.lookup path = some (textOf path))
    (hbuffers : buffers = r.files.map fun path => Buffer.ofText (fileName path) (textOf path)) :
    r.run noColour (Directory.ofTexts texts).read =
      if r.tokens then ⟨0, String.join (buffers.map Buffer.listing), ""⟩
      else check (r.settings noColour) buffers := by
  apply run_of_loads
  rw [hbuffers, Loads, List.forall₂_map_right_iff, List.forall₂_same]
  intro path hpath
  obtain ⟨hplain, hstored⟩ := hfiles path hpath
  exact Directory.load_ofTexts htexts hplain hstored

end FrontEnd
