import BuildPrune.Proofs.Lossless
import BuildPrune.Proofs.Searches
import BuildPrune.Workspace.Basic

/-!
# BuildPrune.Proofs.Loading

What is loaded. Each script that was found is read and parsed, and from then on a workspace knows it
by the path that is shown for it.

* A source is a script that was found, under its shown path, and prints as the content of its file
  (`script_of_source`), because parsing loses nothing. A bad script is one that was found and could
  not be read (`file_of_failure`).
* Each script that was found becomes a source or a bad script, and never both (`paths_ofFiles`).
* Shown paths are canonical whatever the names are (`canonical_of_load`). But names that are no
  texts can be shown alike. Where the names of all scripts are texts (`TextScripts`), the sources
  have different paths (`distinct_of_load`), and each leads to its file (`joined_shownPath`).
-/

namespace BuildPrune

namespace Disk

variable {disk : Disk} {root : Location} {base : RawText} {names : List RawText}

/-! ### Scripts below a place -/

instance (disk : Disk) (root : Location) (names : List RawText) :
    Decidable (disk.ScriptAt root names) :=
  match hnode : disk.get? (root ++ names) with
  | some (.file content) =>
    decidable_of_iff (IsScript names) ⟨fun h => ⟨h, content, hnode⟩, fun h => h.1⟩
  | some (.link _) | some .directory | none => .isFalse (by simp [ScriptAt, hnode])

/-- The scripts below a place have texts for names, and so have the directories from there. -/
def TextScripts (disk : Disk) (root : Location) : Prop :=
  ∀ found ∈ disk.below root, disk.ScriptAt root found.1 → ∀ name ∈ found.1, name.IsText

instance (disk : Disk) (root : Location) : Decidable (disk.TextScripts root) :=
  inferInstanceAs (Decidable (∀ found ∈ disk.below root,
    disk.ScriptAt root found.1 → ∀ name ∈ found.1, name.IsText))

/-- No file has two names that are names of scripts below a place. Other names of the same file,
such as those outside of the project, are no matter. -/
def UnsharedScripts (disk : Disk) (root : Location) : Prop :=
  ∀ found ∈ disk.below root, disk.ScriptAt root found.1 → ∀ other ∈ disk.below root,
    disk.ScriptAt root other.1 → disk.SameFile (root ++ found.1) (root ++ other.1) →
      found.1 = other.1

instance (disk : Disk) (root : Location) : Decidable (disk.UnsharedScripts root) :=
  inferInstanceAs (Decidable (∀ found ∈ disk.below root, disk.ScriptAt root found.1 →
    ∀ other ∈ disk.below root, disk.ScriptAt root other.1 →
      disk.SameFile (root ++ found.1) (root ++ other.1) → found.1 = other.1))

theorem ScriptAt.mem_below (h : disk.ScriptAt root names) (htree : disk.IsTree) :
    ∃ node, (names, node) ∈ disk.below root := by
  obtain ⟨⟨above, text, rfl, -⟩, content, hfile⟩ := h
  exact ⟨_, (mem_below_iff htree).2 ⟨by simp, hfile⟩⟩

/-- Every name on the way to a script is a text, if the tree says so for those below the root. -/
theorem TextScripts.isText (h : disk.TextScripts root) (htree : disk.IsTree)
    (hscript : disk.ScriptAt root names) : ∀ name ∈ names, name.IsText := by
  obtain ⟨node, hmem⟩ := hscript.mem_below htree
  exact h _ hmem hscript

/-- Two scripts with one file are the same script. -/
theorem UnsharedScripts.eq_of_sameFile (h : disk.UnsharedScripts root) (htree : disk.IsTree)
    {other : List RawText} (hscript : disk.ScriptAt root names)
    (hscript' : disk.ScriptAt root other)
    (hsame : disk.SameFile (root ++ names) (root ++ other)) : names = other := by
  obtain ⟨node, hmem⟩ := hscript.mem_below htree
  obtain ⟨node', hmem'⟩ := hscript'.mem_below htree
  exact h _ hmem hscript _ hmem' hscript' hsame

/-! ### Scripts that are found

A search answers joined paths. What is shown for them is the path below the base with a slash
between names and each name as text, and of names that are texts no two are shown alike. -/

namespace FoundScript

theorem scriptAt (h : disk.FoundScript root names) (htree : disk.IsTree) :
    disk.ScriptAt root names :=
  ⟨h.isScript, h.sought.file htree⟩

theorem canonical (h : disk.FoundScript root names) (htree : disk.IsTree) :
    Path.Canonical (Path.shownPath names) :=
  Path.canonical_shownPath h.sought.ne_nil (h.sought.isName htree)

/-- Texts are the pieces of the path that is shown for them. -/
theorem pieces_shownPath (h : disk.FoundScript root names) (htree : disk.IsTree)
    (htexts : disk.TextScripts root) : Path.pieces (Path.shownPath names) = names :=
  Path.pieces_shownPath_of_isText h.sought.ne_nil
    (fun name hname => (h.sought.isName htree name hname).2) (htexts.isText htree (h.scriptAt htree))

theorem ofText_shownPath (h : disk.FoundScript root names) (htree : disk.IsTree)
    (htexts : disk.TextScripts root) : RawText.ofText (Path.shownPath names) = Path.ofNames names := by
  have hpieces := Path.pieces_ofNames h.sought.ne_nil
    fun name hname => (h.sought.isName htree name hname).2
  exact Path.pieces_injective ((h.pieces_shownPath htree htexts).trans hpieces.symm)

/-- Where names are texts, the path that is shown leads to the file that was found. A source is
written under its shown path, so this is what its changes depend on. -/
theorem joined_shownPath (h : disk.FoundScript root names) (htree : disk.IsTree)
    (htexts : disk.TextScripts root) (base : RawText) :
    Path.join base (Path.shownPath names) = joined base names := by
  rw [joined, h.ofText_shownPath htree htexts]

/-- What is shown for a script is told by its names alone, and not by the base. -/
theorem relativeTo_joined (h : disk.FoundScript root names) (htree : disk.IsTree)
    (base : RawText) : Path.relativeTo base (joined base names) = Path.shownPath names := by
  rw [joined, Path.relativeTo_join (h.sought.canonical htree),
    Path.pieces_ofNames h.sought.ne_nil fun name hname => (h.sought.isName htree name hname).2]

/-- Names that are texts are shown each in its own way. -/
theorem nodup_shownPath (htree : disk.IsTree) (htexts : disk.TextScripts root)
    {scripts : List (List RawText)} (hnodup : scripts.Nodup)
    (hfound : ∀ names ∈ scripts, disk.FoundScript root names) :
    (scripts.map Path.shownPath).Nodup := by
  refine List.Nodup.map_on ?_ hnodup
  intro names hnames other hother hsame
  rw [← (hfound names hnames).pieces_shownPath htree htexts, hsame,
    (hfound other hother).pieces_shownPath htree htexts]

end FoundScript

/-- What is found are the scripts below a directory, or it is at most one file. -/
theorem discover_cases {found : List RawText} (h : disk.discover base = .ok found) :
    (∃ root, disk.spot true base = .ok (.taken root .directory)) ∨ found = [base] ∨ found = [] := by
  have hone : ∀ kind, scriptPaths [⟨base, kind⟩] = [base] ∨ scriptPaths [⟨base, kind⟩] = [] := by
    intro kind
    unfold scriptPaths
    cases hscript : Found.isScript ⟨base, kind⟩ with
    | false => exact .inr (by simp [hscript, sortBy])
    | true => exact .inl (by simp [hscript, sortBy, insertBy])
  obtain ⟨all, hall, h⟩ := ok_of_bind h
  cases h
  unfold searchFrom at hall
  split at hall
  · cases hall
  · cases hall
  · next root hroot => exact .inl ⟨root, hroot⟩
  · split at hall <;> cases hall <;> exact .inr (hone _)
  · cases hall
    exact .inr (hone _)

end Disk

namespace Workspace

variable {disk : Disk} {root : Location} {base : RawText} {dialect : Dialect}
  {files : List FoundFile} {workspace : Workspace}

/-! ### Reading -/

theorem ok_of_fetch {path : RawText} {file : FoundFile} (h : fetch disk path = .ok file) :
    file.1 = path ∧ disk.read path = .ok file.2 := by
  unfold fetch at h
  split at h
  · next hread =>
      cases h
      exact ⟨rfl, hread⟩
  · cases h

theorem readScript_ok {content : ByteArray} {script : Script}
    (h : readScript dialect content = .ok script) :
    ∃ text, String.fromUTF8? content = some text ∧ parse text dialect = .ok script := by
  unfold readScript at h
  split at h
  · cases h
  · next text htext =>
      split at h
      · next hparse =>
          cases h
          exact ⟨text, htext, hparse⟩
      · cases h

/-- A script prints as the content that it was read from: its text is the content, and parsing loses
nothing of that. -/
theorem print_of_readScript {content : ByteArray} {script : Script}
    (h : readScript dialect content = .ok script) : script.print.toUTF8 = content := by
  obtain ⟨text, htext, hparse⟩ := readScript_ok h
  rw [print_of_parse hparse]
  unfold String.fromUTF8? at htext
  split at htext
  · cases htext
    rfl
  · cases htext

/-! ### Sources and bad scripts

A script goes into one of two lists, depending on whether it can be read. The order in both is
that of the search, and together they have the paths that were shown. -/

/-- Each file that was found is a source or a bad script, under the path that is shown for it.
Counted with repetitions, so no file is both. -/
theorem paths_ofFiles (base : RawText) (dialect : Dialect) (files : List FoundFile) :
    ((ofFiles base dialect files).sources.map Source.path ++
      (ofFiles base dialect files).failures.map BadScript.path).Perm
        (files.map fun file => Path.relativeTo base file.1) := by
  simp only [ofFiles]
  induction files with
  | nil => exact .refl _
  | cons file rest ih =>
      rw [List.map_cons, List.map_cons]
      simp only [readFound]
      split
      · exact ih.cons _
      · exact List.perm_middle.trans (ih.cons _)

/-- The sources are in the order of the files. -/
theorem paths_sources_sublist (base : RawText) (dialect : Dialect) (files : List FoundFile) :
    ((ofFiles base dialect files).sources.map Source.path).Sublist
      (files.map fun file => Path.relativeTo base file.1) := by
  simp only [ofFiles]
  induction files with
  | nil => exact .slnil
  | cons file rest ih =>
      rw [List.map_cons, List.map_cons]
      simp only [readFound]
      split
      · exact ih.cons_cons _
      · exact ih.cons _

/-- So are the bad scripts. -/
theorem paths_failures_sublist (base : RawText) (dialect : Dialect) (files : List FoundFile) :
    ((ofFiles base dialect files).failures.map BadScript.path).Sublist
      (files.map fun file => Path.relativeTo base file.1) := by
  simp only [ofFiles]
  induction files with
  | nil => exact .slnil
  | cons file rest ih =>
      rw [List.map_cons, List.map_cons]
      simp only [readFound]
      split
      · exact ih.cons _
      · exact ih.cons_cons _

/-- A source is a file that was found and could be read as a script. -/
theorem file_of_source {source : Source} (h : source ∈ (ofFiles base dialect files).sources) :
    ∃ file ∈ files, source.path = Path.relativeTo base file.1 ∧
      readScript (Path.dialect file.1) file.2 = .ok source.script := by
  obtain ⟨result, hresult, hsource⟩ := List.mem_filterMap.1 h
  obtain ⟨file, hfile, rfl⟩ := List.mem_map.1 hresult
  refine ⟨file, hfile, ?_⟩
  simp only [readFound] at hsource
  split at hsource
  · next script hscript =>
      cases hsource
      exact ⟨rfl, hscript⟩
  · cases hsource

/-- A bad script is a file that was found and could not be read as a script. -/
theorem file_of_failure {bad : BadScript} (h : bad ∈ (ofFiles base dialect files).failures) :
    ∃ file ∈ files, bad.path = Path.relativeTo base file.1 ∧
      readScript (Path.dialect file.1) file.2 = .error bad.failure := by
  obtain ⟨result, hresult, hbad⟩ := List.mem_filterMap.1 h
  obtain ⟨file, hfile, rfl⟩ := List.mem_map.1 hresult
  refine ⟨file, hfile, ?_⟩
  simp only [readFound] at hbad
  split at hbad
  · cases hbad
  · next failure hfailure =>
      cases hbad
      exact ⟨rfl, hfailure⟩

/-! ### Loading -/

/-- The files of a project are those at the paths that were found. -/
theorem files_of_fetch {found : List RawText} (h : found.mapM (fetch disk) = .ok files) :
    files.map Prod.fst = found ∧ ∀ file ∈ files, disk.read file.1 = .ok file.2 := by
  have hfetched := forall₂_of_mapM h
  constructor
  · have hsame := hfetched.imp fun path file hfile => (ok_of_fetch hfile).1.symm
    rw [← List.forall₂_map_right_iff, List.forall₂_eq_eq_eq] at hsame
    exact hsame.symm
  · intro file hfile
    obtain ⟨path, -, hfetch⟩ := exists_of_forall₂ hfetched hfile
    obtain ⟨rfl, hread⟩ := ok_of_fetch hfetch
    exact hread

/-- A project that is loaded is made of the files that were found, as they were read. Later proofs
start from this, and do not look into the loader. -/
theorem load_ok (hload : load disk base = .ok workspace) :
    ∃ files, disk.discover base = .ok (files.map Prod.fst) ∧
      (∀ file ∈ files, disk.read file.1 = .ok file.2) ∧
      workspace = ofFiles base (disk.projectDialect base) files := by
  unfold load at hload
  split at hload
  · cases hload
  · next found hdiscover =>
      obtain ⟨files, hfiles, hload⟩ := ok_of_bind hload
      cases hload
      obtain ⟨hpaths, hread⟩ := files_of_fetch hfiles
      exact ⟨files, hpaths ▸ hdiscover, hread, rfl⟩

section Directory

variable (htree : disk.IsTree) (hbase : disk.spot true base = .ok (.taken root .directory))
include htree hbase

omit hbase in
/-- The paths that are shown for the files that were found are those of the scripts. -/
theorem shown_of_paths {scripts : List (List RawText)}
    (hpaths : files.map Prod.fst = scripts.map (Disk.joined base))
    (hfound : ∀ names ∈ scripts, disk.FoundScript root names) :
    (files.map fun file => Path.relativeTo base file.1) = scripts.map Path.shownPath := by
  rw [← Function.comp_def (Path.relativeTo base) Prod.fst, ← List.map_map, hpaths, List.map_map]
  exact List.map_congr_left fun names hnames => (hfound names hnames).relativeTo_joined htree base

/-- The files that were found below a directory are its scripts, each once, by the paths that the
search has put together. -/
theorem exists_scripts (hdiscover : disk.discover base = .ok (files.map Prod.fst)) :
    ∃ scripts : List (List RawText), files.map Prod.fst = scripts.map (Disk.joined base) ∧
      scripts.Nodup ∧ ∀ names ∈ scripts, disk.FoundScript root names := by
  obtain ⟨scripts, hpaths, hnodup, -, hmem⟩ := Disk.scripts_of_discover htree hbase hdiscover
  exact ⟨scripts, hpaths, hnodup, fun names hnames => (hmem names).1 hnames⟩

/-- A source is a script that was found, and prints as its file. -/
theorem script_of_source (hload : load disk base = .ok workspace) {source : Source}
    (h : source ∈ workspace.sources) :
    ∃ names, disk.FoundScript root names ∧ source.path = Path.shownPath names ∧
      disk.read (Disk.joined base names) = .ok source.script.print.toUTF8 := by
  obtain ⟨files, hdiscover, hread, rfl⟩ := load_ok hload
  obtain ⟨scripts, hpaths, -, hfound⟩ := exists_scripts htree hbase hdiscover
  obtain ⟨file, hfile, hpath, hscript⟩ := file_of_source h
  obtain ⟨names, hnames, hjoined⟩ :=
    List.mem_map.1 (hpaths ▸ List.mem_map_of_mem (f := Prod.fst) hfile)
  refine ⟨names, hfound names hnames, ?_, ?_⟩
  · rw [hpath, ← hjoined, (hfound names hnames).relativeTo_joined htree]
  · rw [hjoined, print_of_readScript hscript]
    exact hread file hfile

/-- The paths of sources are canonical, whatever bytes the names are made of. -/
theorem canonical_of_load (hload : load disk base = .ok workspace) :
    ∀ source ∈ workspace.sources, Path.Canonical source.path := by
  intro source hsource
  obtain ⟨names, hfound, hpath, -⟩ := script_of_source htree hbase hload hsource
  rw [hpath]
  exact hfound.canonical htree

end Directory

/-- Where the names of scripts are texts, sources and bad scripts all have different paths. For a
base that is a file there is one script at most. -/
theorem distinct_of_load (htree : disk.IsTree)
    (htexts : ∀ root, disk.spot true base = .ok (.taken root .directory) → disk.TextScripts root)
    (hload : load disk base = .ok workspace) :
    (workspace.sources.map Source.path ++ workspace.failures.map BadScript.path).Nodup := by
  obtain ⟨files, hdiscover, -, rfl⟩ := load_ok hload
  rw [(paths_ofFiles base (disk.projectDialect base) files).nodup_iff]
  rcases Disk.discover_cases hdiscover with ⟨root, hroot⟩ | hone
  · obtain ⟨scripts, hpaths, hnodup, hfound⟩ := exists_scripts htree hroot hdiscover
    rw [shown_of_paths htree hpaths hfound]
    exact Disk.FoundScript.nodup_shownPath htree (htexts root hroot) hnodup hfound
  · rw [← Function.comp_def (Path.relativeTo base) Prod.fst, ← List.map_map]
    rcases hone with hone | hnone
    · rw [hone]
      exact List.nodup_singleton _
    · rw [hnone]
      exact List.nodup_nil

end Workspace

end BuildPrune
