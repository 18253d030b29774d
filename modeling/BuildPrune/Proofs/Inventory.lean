import BuildPrune.Proofs.MemoryAndDisk

/-!
# BuildPrune.Proofs.Inventory

Loading a project accounts for each of its scripts, once.

* In a tree without links a path from the base leads down to what its names say (`spot_joined`), so
  the search comes to its end (`search_ok`), and each script that is found can be read.
* What is found is exactly the regular files with the names of scripts that are in no skipped
  directory (`foundScript_iff`), in the order of their names.
* Each is then a source or a bad script, under the path that is shown for it (`accounts_of_load`).

The theorem is `load_accounts`. Shown paths are distinct and in order if they are texts, and the
directory must not be so far down that the system refuses its paths; `not_load_accounts` shows why.
-/

namespace BuildPrune

/-- Each of the paths comes before those behind it. -/
def Path.Ascending (paths : List String) : Prop :=
  paths.Pairwise fun path other => Before (RawText.ofText path) (RawText.ofText other)

namespace Disk

variable {disk : Disk} {root place : Location} {base path : RawText} {names : List RawText}

/-! ### Down to a script

From the base down, the names of a script lead through directories that are not skipped. Here that
is said without the search, for a file and its names only. -/

/-- What is above a node is a directory. -/
def Rooted (disk : Disk) : Prop :=
  ∀ entry ∈ disk.entries, ∀ n < entry.1.length, disk.get? (entry.1.take n) = some .directory

instance (disk : Disk) : Decidable disk.Rooted :=
  inferInstanceAs (Decidable (∀ entry ∈ disk.entries, ∀ n < entry.1.length, _))

/-- What is above a node of the tree is a directory. -/
theorem Rooted.directory (h : disk.Rooted) (htree : disk.IsTree) {above below : List RawText}
    {node : Inode} (hnode : disk.get? (above ++ below) = some node) (hbelow : below ≠ []) :
    disk.get? above = some .directory := by
  obtain ⟨entry, hentry, -⟩ := Option.map_eq_some_iff.1 hnode
  have hmem := (htree.mem_iff (List.append_ne_nil_of_right_ne_nil above hbelow)).2 hentry
  have hlength : above.length < (above ++ below).length := by
    rw [List.length_append]
    exact Nat.lt_add_of_pos_right (List.length_pos_iff.2 hbelow)
  have hdirectory := h _ hmem above.length hlength
  rwa [List.take_left] at hdirectory

/-- What is on the disk, behind directories that are not skipped, is sought. The induction is on the
names, from the root down. -/
theorem Rooted.sought (h : disk.Rooted) (htree : disk.IsTree) (hsome : names ≠ [])
    (hkept : ∀ directory ∈ names.dropLast, ¬SkippedName directory) {content : ByteArray}
    (hfile : disk.get? (place ++ names) = some (.file content)) :
    disk.Sought place names .file := by
  have hchild : ∀ {place : Location} {name : RawText} {node : Inode},
      disk.get? (place ++ [name]) = some node →
      ∃ entry, disk.inode entry = node ∧ (name, entry.kind) ∈ disk.children place := by
    intro place name node hnode
    obtain ⟨entry, hentry, hinode⟩ := Option.map_eq_some_iff.1 hnode
    exact ⟨entry, hinode, (mem_children_iff htree).2 ⟨entry, hentry, rfl⟩⟩
  induction names generalizing place with
  | nil => exact absurd rfl hsome
  | cons name rest ih =>
      by_cases hrest : rest = []
      · subst hrest
        obtain ⟨entry, hentry, hmem⟩ := hchild hfile
        cases entry with
        | link | directory => cases hentry
        | file number => exact .here hmem nofun
      · rw [List.dropLast_cons_of_ne_nil hrest] at hkept
        obtain ⟨hname, hothers⟩ := List.forall_mem_cons.1 hkept
        have hpath : place ++ name :: rest = (place ++ [name]) ++ rest := by simp
        rw [hpath] at hfile
        obtain ⟨entry, hentry, hmem⟩ := hchild (h.directory htree hfile hrest)
        cases entry with
        | link | file => cases hentry
        | directory => exact .down hmem hname (ih hrest hothers hfile)

/-- The scripts that are found are the files with the names of scripts, in no skipped directory. The
one side is told by the search, the other by the disk alone. -/
theorem foundScript_iff (htree : disk.IsTree) (hrooted : disk.Rooted) :
    disk.FoundScript root names ↔ disk.ScriptAt root names := by
  constructor
  · exact fun h => h.scriptAt htree
  · rintro ⟨hscript, content, hfile⟩
    have hsome : names ≠ [] := by
      obtain ⟨above, text, rfl, -⟩ := hscript
      simp
    exact ⟨hrooted.sought htree hsome (isScript_iff.1 hscript).2 hfile, hscript⟩

/-! ### Paths that can be followed

A path can be followed if none of its names is too long and it is not too long as a whole. These
are the limits of the system; below the base of a project there are no links, so nothing else can
stop a search. -/

theorem walk_ne_nameTooLong (disk : Disk) (here : Location)
    (hshort : ∀ name ∈ names, name.bytes.length ≤ 255) :
    disk.walk here names ≠ .error .nameTooLong := by
  induction names generalizing here with
  | nil =>
      intro h
      cases h
  | cons name rest ih =>
      obtain ⟨hname, hrest⟩ := List.forall_mem_cons.1 hshort
      intro h
      rw [walk] at h
      split at h
      · exact ih here hrest h
      · split at h
        · exact ih here.dropLast hrest h
        · rw [if_neg (by omega)] at h
          simp only at h
          split at h
          · exact ih _ hrest h
          · cases h
          · split at h <;> cases h
          · split at h <;> cases h

/-- What is followed to a directory, and from there walked on without a link, is followed to the
end. -/
theorem follow_append_of_walk {more : List RawText} {spot : Spot} {links : Nat} {here : Location}
    {names : List RawText} (h : disk.follow true links here names = .ok (.taken root .directory))
    (hmore : disk.walk root more = .ok (.spot spot)) :
    disk.follow true links here (names ++ more) = .ok spot := by
  induction links using Nat.strongRecOn generalizing here names with
  | ind links ih =>
      have hboth := disk.walk_append here names more
      rcases follow_eq_ok_iff.1 h with hwalk | ⟨place, target, rest, hwalk, hgoes⟩
      · rw [hwalk] at hboth
        exact follow_eq_ok_iff.2 (.inl (hboth.trans hmore))
      · rw [hwalk] at hboth
        rcases hgoes with ⟨hlast, -⟩ | ⟨-, left, rfl, hleft⟩
        · cases hlast
        · have hmoved := ih left (Nat.lt_succ_self left) hleft
          rw [List.append_assoc] at hmoved
          refine follow_eq_ok_iff.2 (.inr ⟨place, target, rest ++ more, hboth, .inr ?_⟩)
          exact ⟨rfl, left, rfl, hmoved⟩

/-- A path can be followed as far as its text goes. -/
def Legible (path : RawText) : Prop :=
  0 ∉ path.bytes ∧ path.bytes.length ≤ 4095

instance (path : RawText) : Decidable (Legible path) :=
  inferInstanceAs (Decidable (_ ∧ _))

/-- A canonical path from a base leads to where its names lead from the directory of the base, if
its text allows to follow it. -/
theorem spot_join_of_walk {spot : Spot}
    (hbase : disk.spot true base = .ok (.taken root .directory)) (hpath : Path.Canonical path)
    (hlegible : Legible (Path.join base path))
    (hwalk : disk.walk root (Path.pieces path) = .ok (.spot spot)) :
    disk.spot true (Path.join base path) = .ok spot := by
  obtain ⟨hsome, hfollow⟩ := spot_eq_follow hbase
  obtain ⟨front, hfront, hjoin⟩ := Path.exists_join_eq hsome
  obtain ⟨habsolute, hpieces⟩ := hjoin path hpath
  -- The text in front of the joined path leads where the base does.
  have hbefore : disk.follow true 40 (start disk.home base) (Path.pieces front) =
      .ok (.taken root .directory) := by
    rw [hfollow] at hbase
    rcases hfront with hfront | hfront
    · rw [hfront] at hbase
      exact hbase
    · rw [hfront, follow_slash_iff] at hbase
      exact hbase
  rw [Disk.spot, if_neg (Path.join_ne_empty hpath), if_neg (by simpa using hlegible.1),
    if_neg (by have := hlegible.2; omega), start, habsolute, hpieces]
  exact follow_append_of_walk hbefore hwalk

/-- A tree of directories in which the paths from `base` to all that is below `root` can be
followed. -/
structure Readable (disk : Disk) (base : RawText) (root : Location) : Prop where
  rooted : disk.Rooted
  short : ∀ found ∈ disk.below root, ∀ name ∈ found.1, name.bytes.length ≤ 255
  legible : ∀ found ∈ disk.below root, Legible (joined base found.1)

/-- What is sought below the base of a project is found by its path. This is where the paths must
not be too long, which `Readable` says of the tree. -/
theorem spot_joined (htree : disk.IsTree) (hproject : disk.IsProject base root)
    (hreadable : disk.Readable base root) {kind : Kind} (h : disk.Sought root names kind) :
    ∃ entry, entry.kind = kind ∧ disk.get? (root ++ names) = some (disk.inode entry) ∧
      disk.spot true (joined base names) = .ok (.taken (root ++ names) (disk.inode entry)) := by
  obtain ⟨entry, hentry, hkind⟩ := h.lookup? htree
  have hnode : disk.get? (root ++ names) = some (disk.inode entry) := by
    rw [get?, hentry, Option.map_some]
  have hbelow := (mem_below_iff htree).2 ⟨h.ne_nil, hnode⟩
  have hpieces := Path.pieces_ofNames h.ne_nil fun name hname => (h.isName htree name hname).2
  refine ⟨entry, hkind, hnode, ?_⟩
  refine spot_join_of_walk hproject.leads (h.canonical htree) (hreadable.legible _ hbelow) ?_
  rw [hpieces]
  rcases h.walk htree (fun _ hdirectory => hdirectory) with hlong | hdown
  · exact absurd hlong (disk.walk_ne_nameTooLong root (hreadable.short _ hbelow))
  · rw [hdown, arrive_nil (hproject.plain names), spotAt, hnode]

/-- A search comes to its end if every directory that is sought is found by its path. The induction
is on the levels that are left. -/
theorem search_ok (htree : disk.IsTree) (hpath : disk.spot true path = .ok (.taken place .directory))
    (hspots : ∀ names, disk.Sought place names .directory →
      disk.spot true (names.foldl Path.join path) = .ok (.taken (place ++ names) .directory))
    (levels : Nat) : ∃ found, disk.search levels path = .ok found := by
  induction levels generalizing path place with
  | zero => exact ⟨[], rfl⟩
  | succ levels ih =>
      rw [search_succ htree hpath]
      have hanswers : ∀ child ∈ disk.keptChildren place,
          ∃ answer, disk.answer levels path child = .ok answer := by
        rintro ⟨name, kind⟩ hmem
        obtain ⟨hchild, hkept⟩ := mem_keptChildren_iff.1 hmem
        unfold Disk.answer
        split
        · next hdirectory =>
            cases hdirectory
            have hhere : disk.spot true (Path.join path name) =
                .ok (.taken (place ++ [name]) .directory) := hspots [name] (.here hchild hkept)
            obtain ⟨below, hbelow⟩ := ih hhere fun names hnames => by
              rw [List.append_assoc]
              exact hspots (name :: names) (.down hchild (hkept rfl) hnames)
            refine ⟨foundAt path ([name], .directory) :: below, ?_⟩
            rw [hbelow]
            rfl
        · exact ⟨_, rfl⟩
      obtain ⟨answers, hanswers⟩ := exists_mapM_ok hanswers
      refine ⟨answers.flatten, ?_⟩
      rw [hanswers]
      rfl

/-- A project that can be read is searched to the end. -/
theorem discover_ok (htree : disk.IsTree) (hproject : disk.IsProject base root)
    (hreadable : disk.Readable base root) : ∃ found, disk.discover base = .ok found := by
  have hspots : ∀ names, disk.Sought root names .directory →
      disk.spot true (names.foldl Path.join base) = .ok (.taken (root ++ names) .directory) := by
    intro names hnames
    obtain ⟨entry, hkind, -, hspot⟩ := spot_joined htree hproject hreadable hnames
    rw [Path.foldl_join hnames.ne_nil (hnames.isName htree)]
    cases entry with
    | file | link => cases hkind
    | directory => exact hspot
  obtain ⟨all, hall⟩ := search_ok htree hproject.leads hspots disk.depth
  refine ⟨scriptPaths all, ?_⟩
  rw [discover, searchFrom, hproject.leads]
  simp only [hall]
  rfl

/-- And each script that was found can be read. -/
theorem read_joined (htree : disk.IsTree) (hproject : disk.IsProject base root)
    (hreadable : disk.Readable base root) (h : disk.FoundScript root names) :
    ∃ content, disk.read (joined base names) = .ok content ∧
      disk.get? (root ++ names) = some (.file content) := by
  obtain ⟨entry, hkind, hnode, hspot⟩ := spot_joined htree hproject hreadable h.sought
  cases entry with
  | link | directory => cases hkind
  | file number =>
      refine ⟨disk.contents number, ?_, hnode⟩
      rw [read, hspot]
      rfl

/-- A script is in Kotlin if its name says so. -/
theorem FoundScript.dialect_joined (h : disk.FoundScript root names) (htree : disk.IsTree)
    (base : RawText) {above : List RawText} {text : String}
    (hnames : names = above ++ [RawText.ofText text]) :
    Path.dialect (joined base names) = .kotlin ↔ Text.endsWith text ".kts" = true := by
  have hlast : Path.fileName? (joined base names) = some (RawText.ofText text) := by
    rw [joined, Path.fileName?_join (h.sought.canonical htree),
      Path.pieces_ofNames h.sought.ne_nil fun name hname => (h.sought.isName htree name hname).2,
      hnames, List.getLast?_concat]
  rw [Path.dialect, hlast, Option.bind_some, RawText.text?_eq_some_iff.2 rfl, Option.any_some]
  split
  · next hends => simp [hends]
  · next hends => simp [hends]

end Disk

namespace Workspace

variable {disk : Disk} {root : Location} {base : RawText} {dialect : Dialect}
  {files : List FoundFile} {workspace : Workspace}

/-! ### Scripts that are read

Reading fails if the content is no text or if there is a fault in it. In both cases the script is
a bad one, and loading goes on. -/

theorem dialect_of_readScript {content : ByteArray} {script : Script}
    (h : readScript dialect content = .ok script) : script.dialect = dialect := by
  obtain ⟨text, -, hparse⟩ := readScript_ok h
  exact (Parser.reads_of_parse hparse).1

/-- Why a content is no script: it is no text, or the text is rejected. -/
theorem readScript_error {content : ByteArray} {failure : ScriptFailure}
    (h : readScript dialect content = .error failure) :
    (String.fromUTF8? content = none ∧ failure = .encoding) ∨
      ∃ text error, String.fromUTF8? content = some text ∧ parse text dialect = .error error ∧
        failure = .rejected error := by
  unfold readScript at h
  split at h
  · next hnone =>
      cases h
      exact .inl ⟨hnone, rfl⟩
  · next text htext =>
      split at h
      · cases h
      · next error hparse =>
          cases h
          exact .inr ⟨text, error, htext, hparse, rfl⟩

/-! ### Loading

What is found and what can be read are put together. The example has scripts of both dialects, a
bad one among them, and others in directories that are skipped. -/

/-- A project that can be read is loaded. Scripts that are bad are no reason to fail. -/
theorem exists_load (htree : disk.IsTree) (hproject : disk.IsProject base root)
    (hreadable : disk.Readable base root) : ∃ workspace, load disk base = .ok workspace := by
  obtain ⟨found, hdiscover⟩ := Disk.discover_ok htree hproject hreadable
  obtain ⟨scripts, rfl, -, -, hmem⟩ := Disk.scripts_of_discover htree hproject.leads hdiscover
  have hfetched : ∀ path ∈ scripts.map (Disk.joined base), ∃ file, fetch disk path = .ok file := by
    intro path hpath
    obtain ⟨names, hnames, rfl⟩ := List.mem_map.1 hpath
    obtain ⟨content, hread, -⟩ :=
      Disk.read_joined htree hproject hreadable ((hmem names).1 hnames)
    exact ⟨(Disk.joined base names, content), by rw [fetch, hread]⟩
  obtain ⟨files, hfiles⟩ := exists_mapM_ok hfetched
  refine ⟨ofFiles base (disk.projectDialect base) files, ?_⟩
  rw [load, hdiscover]
  simp only [hfiles]
  rfl

/-- A workspace accounts for the scripts below `root`, of which `scripts` are the names. Each of
them is listed once, and each is a source or a bad script but not both. -/
structure Accounts (disk : Disk) (root : Location) (scripts : List (List RawText))
    (workspace : Workspace) : Prop where
  once : scripts.Nodup
  complete : ∀ names, names ∈ scripts ↔ disk.ScriptAt root names
  ordered : scripts.Pairwise fun names other =>
    Path.Before (Path.ofNames names) (Path.ofNames other)
  /-- Each is a source or a bad script, under the path that is shown for it. -/
  shown : (workspace.sources.map Source.path ++ workspace.failures.map BadScript.path).Perm
    (scripts.map Path.shownPath)
  sources_sublist : (workspace.sources.map Source.path).Sublist (scripts.map Path.shownPath)
  failures_sublist : (workspace.failures.map BadScript.path).Sublist (scripts.map Path.shownPath)
  discovered : workspace.discovered = workspace.sources.length + workspace.failures.length
  /-- A source prints as its file, and has the dialect that its name tells. -/
  source : ∀ source ∈ workspace.sources, ∃ above text,
    above ++ [RawText.ofText text] ∈ scripts ∧
    source.path = Path.shownPath (above ++ [RawText.ofText text]) ∧
    disk.get? (root ++ (above ++ [RawText.ofText text])) =
      some (.file source.script.print.toUTF8) ∧
    (source.script.dialect = .kotlin ↔ Text.endsWith text ".kts" = true)
  /-- The file of a bad script is no text, or no script in the dialect that its name tells. -/
  failure : ∀ bad ∈ workspace.failures, ∃ above text content,
    above ++ [RawText.ofText text] ∈ scripts ∧
    bad.path = Path.shownPath (above ++ [RawText.ofText text]) ∧
    disk.get? (root ++ (above ++ [RawText.ofText text])) = some (.file content) ∧
    ((String.fromUTF8? content = none ∧ bad.failure = .encoding) ∨
      ∃ script dialect error, String.fromUTF8? content = some script ∧
        (dialect = .kotlin ↔ Text.endsWith text ".kts" = true) ∧
        parse script dialect = .error error ∧ bad.failure = .rejected error)

section Readable

variable (htree : disk.IsTree) (hproject : disk.IsProject base root)
  (hreadable : disk.Readable base root)
include htree hproject hreadable

/-- A file that was found and read is that of a script, and its name tells the dialect. -/
theorem script_of_file {scripts : List (List RawText)}
    (hpaths : files.map Prod.fst = scripts.map (Disk.joined base))
    (hfound : ∀ names ∈ scripts, disk.FoundScript root names)
    (hread : ∀ file ∈ files, disk.read file.1 = .ok file.2) {file : FoundFile}
    (h : file ∈ files) :
    ∃ above text, above ++ [RawText.ofText text] ∈ scripts ∧
      Path.relativeTo base file.1 = Path.shownPath (above ++ [RawText.ofText text]) ∧
      disk.get? (root ++ (above ++ [RawText.ofText text])) = some (.file file.2) ∧
      (Path.dialect file.1 = .kotlin ↔ Text.endsWith text ".kts" = true) := by
  obtain ⟨names, hnames, hjoined⟩ :=
    List.mem_map.1 (hpaths ▸ List.mem_map_of_mem (f := Prod.fst) h)
  have hscript := hfound names hnames
  obtain ⟨above, text, rfl, -⟩ := hscript.isScript
  obtain ⟨content, hcontent, hnode⟩ := Disk.read_joined htree hproject hreadable hscript
  rw [hjoined, hread file h] at hcontent
  cases hcontent
  refine ⟨above, text, hnames, ?_, hnode, ?_⟩
  · rw [← hjoined, hscript.relativeTo_joined htree]
  · rw [← hjoined]
    exact hscript.dialect_joined htree base rfl

/-- What was loaded accounts for the scripts: each is a source that prints as its file or a bad
script with its reason, under the path that is shown for it. -/
theorem accounts_of_load (hload : load disk base = .ok workspace) :
    ∃ scripts, workspace.Accounts disk root scripts := by
  obtain ⟨files, hdiscover, hread, rfl⟩ := load_ok hload
  obtain ⟨scripts, hpaths, hnodup, hordered, hmem⟩ :=
    Disk.scripts_of_discover htree hproject.leads hdiscover
  have hfound : ∀ names ∈ scripts, disk.FoundScript root names :=
    fun names hnames => (hmem names).1 hnames
  have hshown := shown_of_paths htree hpaths hfound
  have hperm := paths_ofFiles base (disk.projectDialect base) files
  refine ⟨scripts, hnodup, fun names => ?_, hordered, ?_, ?_, ?_, ?_, ?_, ?_⟩
  · exact (hmem names).trans (Disk.foundScript_iff htree hreadable.rooted)
  · exact hshown ▸ hperm
  · exact hshown ▸ paths_sources_sublist base (disk.projectDialect base) files
  · exact hshown ▸ paths_failures_sublist base (disk.projectDialect base) files
  · have hlength := hperm.length_eq
    simp only [List.length_append, List.length_map] at hlength
    exact hlength.symm
  · intro source hsource
    obtain ⟨file, hfile, hpath, hscript⟩ := file_of_source hsource
    obtain ⟨above, text, hnames, hrelative, hnode, hdialect⟩ :=
      script_of_file htree hproject hreadable hpaths hfound hread hfile
    refine ⟨above, text, hnames, hpath.trans hrelative, ?_, ?_⟩
    · rw [print_of_readScript hscript]
      exact hnode
    · rw [dialect_of_readScript hscript]
      exact hdialect
  · intro bad hbad
    obtain ⟨file, hfile, hpath, hfailure⟩ := file_of_failure hbad
    obtain ⟨above, text, hnames, hrelative, hnode, hdialect⟩ :=
      script_of_file htree hproject hreadable hpaths hfound hread hfile
    refine ⟨above, text, file.2, hnames, hpath.trans hrelative, hnode, ?_⟩
    rcases readScript_error hfailure with hencoding | ⟨script, error, htext, hparse, hrejected⟩
    · exact .inl hencoding
    · exact .inr ⟨script, _, error, htext, hdialect, hparse, hrejected⟩

end Readable

/-- Where the names of scripts are texts, the paths that are shown for them are distinct and in the
order of the scripts. -/
theorem Accounts.inOrder {scripts : List (List RawText)} (h : workspace.Accounts disk root scripts)
    (htree : disk.IsTree) (hrooted : disk.Rooted) (htexts : disk.TextScripts root) :
    (workspace.sources.map Source.path ++ workspace.failures.map BadScript.path).Nodup ∧
      Path.Ascending (workspace.sources.map Source.path) ∧
      Path.Ascending (workspace.failures.map BadScript.path) := by
  have hfound : ∀ names ∈ scripts, disk.FoundScript root names :=
    fun names hnames => (Disk.foundScript_iff htree hrooted).2 ((h.complete names).1 hnames)
  have hordered : Path.Ascending (scripts.map Path.shownPath) := by
    rw [Path.Ascending, List.pairwise_map]
    refine h.ordered.imp_of_mem ?_
    intro names other hnames hother hbefore
    rw [(hfound names hnames).ofText_shownPath htree htexts,
      (hfound other hother).ofText_shownPath htree htexts]
    exact hbefore
  refine ⟨?_, hordered.sublist h.sources_sublist, hordered.sublist h.failures_sublist⟩
  rw [h.shown.nodup_iff]
  exact Disk.FoundScript.nodup_shownPath htree htexts h.once hfound

end Workspace

variable {disk : Disk} {base : RawText} {root : Location}

/-- Loading a project that can be read succeeds, and accounts for its scripts. If their names are
texts, the paths of sources and of bad scripts are all different, and either are in order.

`Accounts` speaks of the disk and not of the search: its scripts are all files with the names of
scripts that are in no skipped directory. -/
theorem load_accounts (htree : disk.IsTree) (hproject : disk.IsProject base root)
    (hreadable : disk.Readable base root) :
    ∃ workspace scripts, Workspace.load disk base = .ok workspace ∧
      workspace.Accounts disk root scripts ∧
      (disk.TextScripts root →
        (workspace.sources.map Source.path ++ workspace.failures.map BadScript.path).Nodup ∧
        Path.Ascending (workspace.sources.map Source.path) ∧
        Path.Ascending (workspace.failures.map BadScript.path)) := by
  obtain ⟨workspace, hload⟩ := Workspace.exists_load htree hproject hreadable
  obtain ⟨scripts, haccounts⟩ := Workspace.accounts_of_load htree hproject hreadable hload
  exact ⟨workspace, scripts, hload, haccounts, haccounts.inOrder htree hreadable.rooted⟩

/-- A project with scripts of both dialects, some of them bad, and with files that are not searched
for. -/
def mixedDisk : Disk where
  entries := [(["w"], .directory), (["w", "p"], .directory), (["w", "p", "a"], .directory),
    (["w", "p", "a-b.gradle.kts"], .file 1), (["w", "p", "a", "x.gradle"], .file 2),
    (["w", "p", "bytes.gradle"], .file 3), (["w", "p", "notes.txt"], .file 4),
    (["w", "p", ".git"], .directory), (["w", "p", ".git", "hook.gradle"], .file 5),
    (["w", "p", "a", "build.gradle"], .file 6)]
  contents
    | 2 => "rm(\n".toUTF8
    | 3 => ⟨#[255]⟩
    | 4 => .empty
    | _ => "x()\n".toUTF8
  home := ["w"]

theorem load_accounts_mixed :
    mixedDisk.IsTree ∧ mixedDisk.IsProject "p" ["w", "p"] ∧ mixedDisk.Readable "p" ["w", "p"] ∧
      mixedDisk.TextScripts ["w", "p"] ∧
      ∃ workspace, Workspace.load mixedDisk "p" = .ok workspace ∧
        Path.Ascending (workspace.sources.map Source.path) ∧
        workspace.sources.map Source.path = ["a/build.gradle", "a-b.gradle.kts"] ∧
        workspace.failures.map BadScript.path = ["a/x.gradle", "bytes.gradle"] := by
  have htree : mixedDisk.IsTree := ⟨by decide, by decide⟩
  have hproject : mixedDisk.IsProject "p" ["w", "p"] :=
    ⟨by decide +kernel, Disk.plain_of_entries (by decide) ["w", "p"]⟩
  have hreadable : mixedDisk.Readable "p" ["w", "p"] :=
    ⟨by decide +kernel, by decide +kernel, by decide +kernel⟩
  have htexts : mixedDisk.TextScripts ["w", "p"] := by decide +kernel
  obtain ⟨workspace, scripts, hload, -, hordered⟩ := load_accounts htree hproject hreadable
  have hpaths : (Workspace.load mixedDisk "p").toOption.any (fun workspace =>
      workspace.sources.map Source.path == ["a/build.gradle", "a-b.gradle.kts"] &&
        workspace.failures.map BadScript.path == ["a/x.gradle", "bytes.gradle"]) = true := by
    decide +kernel
  rw [hload] at hpaths
  simp only [Except.toOption, Option.any_some, Bool.and_eq_true, beq_iff_eq] at hpaths
  exact ⟨htree, hproject, hreadable, htexts, workspace, hload, (hordered htexts).2.1, hpaths⟩

/-- A name that ends like that of a script and is no text. -/
def unlistedName : RawText :=
  ⟨0xE9 :: (RawText.ofText ".gradle").bytes⟩

/-- A project of one file of this name. -/
def unlistedDisk : Disk where
  entries := [(["w"], .directory), (["w", unlistedName], .file 1)]
  contents _ := "keep()\n".toUTF8
  home := ["w"]

/-- A long path of the project `p`. -/
def longBase : RawText :=
  ⟨0x70 :: (List.replicate 2044 [Path.slash, 0x2E]).flatten⟩

/-- Loading does not account for a script whose name is no text: that file is not found. It gives
two scripts the same path if they are in directories whose names are shown alike. And it fails if
the project is so far down a path that those of its scripts are too long. -/
theorem not_load_accounts :
    (unlistedDisk.IsTree ∧ unlistedDisk.IsProject "." ["w"] ∧ unlistedDisk.Readable "." ["w"] ∧
      (∃ name, (RawText.ofText ".gradle").bytes <:+ name.bytes ∧
        unlistedDisk.get? ["w", name] = some (.file "keep()\n".toUTF8)) ∧
      ∃ workspace, Workspace.load unlistedDisk "." = .ok workspace ∧ workspace.discovered = 0) ∧
    (strangeDisk.IsTree ∧ strangeDisk.IsProject "." ["w"] ∧ strangeDisk.Readable "." ["w"] ∧
      ∃ workspace, Workspace.load strangeDisk "." = .ok workspace ∧
        ¬(workspace.sources.map Source.path).Nodup) ∧
    (sampleDisk.IsTree ∧ sampleDisk.IsProject longBase ["w", "p"] ∧ sampleDisk.Rooted ∧
      ∃ failure, Workspace.load sampleDisk longBase = .error failure) := by
  have hunlisted : (Workspace.load unlistedDisk ".").toOption.any (·.discovered == 0) = true := by
    decide +kernel
  have hstrange : (Workspace.load strangeDisk ".").toOption.any
      (fun workspace => !decide (workspace.sources.map Source.path).Nodup) = true := by
    decide +kernel
  have hlong : (Workspace.load sampleDisk longBase).isOk = false := by
    decide +kernel
  obtain ⟨workspace, hload, hnone⟩ := ok_of_any hunlisted
  obtain ⟨workspace', hload', htwice⟩ := ok_of_any hstrange
  refine ⟨⟨⟨by decide, by decide⟩, ⟨by decide +kernel, ?_⟩, ?_, ?_, workspace, hload, ?_⟩,
    ⟨⟨by decide, by decide⟩, ⟨by decide +kernel, ?_⟩, ?_, workspace', hload', ?_⟩,
    isTree_sampleDisk, ⟨by decide +kernel, isProject_sampleDisk.plain⟩, by decide +kernel, ?_⟩
  · exact Disk.plain_of_entries (by decide) ["w"]
  · exact ⟨by decide +kernel, by decide +kernel, by decide +kernel⟩
  · exact ⟨unlistedName, List.suffix_cons _ _, by decide +kernel⟩
  · simpa using hnone
  · exact Disk.plain_of_entries (by decide) ["w"]
  · exact ⟨by decide +kernel, by decide +kernel, by decide +kernel⟩
  · simpa using htwice
  · cases hfailed : Workspace.load sampleDisk longBase with
    | error failure => exact ⟨failure, rfl⟩
    | ok workspace =>
        rw [hfailed] at hlong
        cases hlong

end BuildPrune
