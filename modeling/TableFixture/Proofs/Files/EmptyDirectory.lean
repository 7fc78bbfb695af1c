import TableFixture.Proofs.Files.Confined

/-!
# New files in empty directories

A name is joined to the path of an empty directory as it is.  If it starts with a letter, a
new file can be created at the joined path exactly if the name is one of a single file and
the path is not too long; a name with slashes would have to pass through directories that
are not there.  The new file is then the only entry of the directory.

Main results:

- Theorem `emptyDirectory_of_makeDirectory`: a directory that was just made is empty.
- Theorem `EmptyDirectory.locateNew_join`, `EmptyDirectory.isFileName_of_locateNew`: which
  names new files in empty directories can have.
- Theorem `EmptyDirectory.below_put`: a new file is the only entry of its directory.
- Theorem `open?_put_of_locateNew`: a new file is found at its path.
-/

namespace TableFixture

namespace Path

/-! ## Names joined to a base -/

/-- A name without slashes is its only part. -/
theorem parts_of_no_slash {name : String} (h : '/' ∉ name.toList) (hne : name ≠ "") :
    parts name = [name] := by
  simp [parts, partsFrom_of_no_slash h, hne]

/-- A name with a slash, but none at its ends, has several parts. -/
theorem no_slash_of_parts {name first : String} {c : Char} {cs : List Char}
    (hname : name.toList = c :: cs) (hc : c ≠ '/') (hslash : endsInSlash name = false)
    (hparts : parts name = [first]) : '/' ∉ name.toList := by
  intro hmem
  -- What follows the last slash is a part, and so is what stands before it.
  rcases List.eq_append_cons_of_mem (List.mem_reverse.2 hmem) with ⟨after, before, hsplit, hafter⟩
  have hsplit' : name.toList
      = (String.ofList before.reverse).toList ++ '/' :: (String.ofList after.reverse).toList := by
    simpa using congrArg List.reverse hsplit
  have hafter_ne : String.ofList after.reverse ≠ "" := by
    intro hnil
    rw [hnil] at hsplit'
    simp [endsInSlash, hsplit'] at hslash
  obtain ⟨ds, hbefore⟩ : ∃ ds, (String.ofList before.reverse).toList = c :: ds := by
    cases hcs : (String.ofList before.reverse).toList with
    | nil =>
        rw [hcs, hname] at hsplit'
        simp [hc] at hsplit'
    | cons d ds =>
        rw [hcs, hname, List.cons_append, List.cons.injEq] at hsplit'
        exact ⟨ds, by rw [hsplit'.1]⟩
  rcases exists_parts_eq_cons hbefore hc with ⟨first', rest, hcons, -⟩
  have hlast : parts (String.ofList after.reverse) = [String.ofList after.reverse] :=
    parts_of_no_slash (by simpa using hafter) hafter_ne
  rw [parts_of_toList hsplit', hcons, hlast] at hparts
  simp at hparts

/-- A relative name is appended, after a slash if there has to be one. -/
theorem exists_toList_join {name : String} (h : isAbsolute name = false) (base : String) :
    ∃ between, (between = [] ∨ between = ['/']) ∧
      (join base name).toList = base.toList ++ between ++ name.toList := by
  by_cases hbase : base.isEmpty = true ∨ endsInSlash base = true
  · refine ⟨[], .inl rfl, ?_⟩
    rw [join, if_neg (by simp [h]), if_pos (by simpa using hbase)]
    simp
  · rw [not_or, Bool.not_eq_true, Bool.not_eq_true] at hbase
    exact ⟨['/'], .inr rfl, by simp [toList_join_of_relative h hbase.1 hbase.2]⟩

/-- A joined path is as long as its base and its name, if not longer. -/
theorem le_utf8ByteSize_join {name : String} (h : isAbsolute name = false) (base : String) :
    base.utf8ByteSize + name.utf8ByteSize ≤ (join base name).utf8ByteSize := by
  rw [join, if_neg (by simp [h])]
  split
  · exact Nat.le_of_eq String.utf8ByteSize_append.symm
  · rw [String.utf8ByteSize_append, String.utf8ByteSize_append]
    omega

/-- A joined path ends as its name does. -/
theorem endsInSlash_join {name : String} (h : isAbsolute name = false) (hne : name ≠ "")
    (base : String) : endsInSlash (join base name) = endsInSlash name := by
  rcases exists_toList_join h base with ⟨between, -, hjoin⟩
  have hne' : name.toList ≠ [] := by simpa using hne
  rw [endsInSlash, endsInSlash, hjoin, List.getLast?_append_of_ne_nil _ hne']

/-- A joined path holds the characters of its base and of its name, and slashes. -/
theorem mem_toList_join {name : String} (h : isAbsolute name = false) (base : String) {c : Char}
    (hc : c ≠ '/') : c ∈ (join base name).toList ↔ c ∈ base.toList ∨ c ∈ name.toList := by
  rcases exists_toList_join h base with ⟨between, hbetween, hjoin⟩
  rw [hjoin]
  rcases hbetween with rfl | rfl <;> simp [hc]

end Path

namespace FileStore

open TableFixture.Path (target)

/-- A text names a single file: it has no slashes and no NUL, and is not too long. -/
structure IsFileName (name : String) : Prop where
  no_slash : '/' ∉ name.toList
  no_nul : '\x00' ∉ name.toList
  size : name.utf8ByteSize ≤ nameLimit

/-- A directory stands at a path, and nothing below it. -/
structure EmptyDirectory (s : FileStore) (path : String) : Prop where
  directory : s.isDirectory path = true
  empty : s.below path = []

variable {s s' : FileStore} {path : String}

theorem pathFault?_eq_none_iff :
    pathFault? path = none ↔
      '\x00' ∉ path.toList ∧ path ≠ "" ∧ path.utf8ByteSize ≤ pathLimit := by
  unfold pathFault?
  split
  next hnul => simp [hnul]
  next hnul =>
    split
    next hempty => simp_all
    next hempty =>
      split
      next hsize => simp [Nat.not_le.2 hsize]
      next hsize => simp_all

/-! ## What lies below a path -/

theorem node?_eq_none_iff {l : Location} (h : l ≠ []) :
    s.node? l = none ↔ ∀ e ∈ s.entries, e.1 ≠ l := by
  rw [node?, if_neg h, List.lookup_eq_none_iff]
  exact forall₂_congr fun e _ => by rw [bne_iff_ne, ne_comm]

/-- Nothing lies below a path exactly if all locations below it are free. -/
theorem below_eq_nil_iff {l : Location} (h : s.locate path = .ok l) :
    s.below path = [] ↔ ∀ names, names ≠ [] → s.node? (l ++ names) = none := by
  simp only [below, h, List.filterMap_eq_nil_iff]
  constructor
  · intro hentries names hnames
    refine (node?_eq_none_iff (by simp [hnames])).2 fun e he hlocation => ?_
    have hentry := hentries e he
    simp [hlocation, hnames] at hentry
  · intro hfree e he
    by_cases hbelow : l <+: e.1
    · rcases hbelow with ⟨names, hlocation⟩
      by_cases hnames : names = []
      · simp [← hlocation, hnames]
      · have hentry := (node?_eq_none_iff (by simp [hnames])).1 (hfree names hnames) e he
        exact absurd hlocation.symm hentry
    · simp [hbelow]

theorem EmptyDirectory.locate (h : s.EmptyDirectory path) : s.locate path = .ok (target path) := by
  have hdirectory := h.directory
  unfold isDirectory at hdirectory
  split at hdirectory
  next l hlocate => rw [hlocate, eq_target_of_locate hlocate]
  next => cases hdirectory

theorem EmptyDirectory.node?_target (h : s.EmptyDirectory path) :
    s.node? (target path) = some .directory := by
  simpa [isDirectory, h.locate, hasDirectory] using h.directory

theorem EmptyDirectory.free (h : s.EmptyDirectory path) {names : List String} (hne : names ≠ []) :
    s.node? (target path ++ names) = none :=
  (below_eq_nil_iff h.locate).1 h.empty names hne

/-- What is put where something new can be created leaves the directories as they were. -/
theorem directories_put_of_locateNew {l : Location} (hlocate : s.locateNew path = .ok l)
    (n : Node) :
    ∀ l', s.node? l' = some .directory → (s.put l n).node? l' = some .directory := by
  intro l' hl'
  rwa [node?_put_of_ne]
  rintro rfl
  rw [node?_of_locateNew hlocate] at hl'
  cases hl'

/-- A directory that was just made is empty. -/
theorem emptyDirectory_of_makeDirectory (h : s.Closed) (hmake : s.makeDirectory path = .ok s') :
    s'.EmptyDirectory path := by
  rcases makeDirectory_eq_ok hmake with ⟨hlocate, rfl⟩
  have hfree := node?_of_locateNew hlocate
  have hne : target path ≠ [] := ne_nil_of_ne_directory (by rw [hfree]; simp)
  have hnode := node?_put_self s .directory hne
  have hfound :=
    (locate_of_locateNew (directories_put_of_locateNew hlocate .directory) hlocate).1 hnode
  refine ⟨by simp [isDirectory, hfound, hasDirectory, hnode], ?_⟩
  refine (below_eq_nil_iff hfound).2 fun names hnames => ?_
  rw [node?_put_of_ne s _ (by simpa using hnames)]
  exact h.eq_none_of_below hfree (List.prefix_append _ _)

/-! ## New files -/

/-- A new file is found at its path. -/
theorem open?_put_of_locateNew {l : Location} (hlocate : s.locateNew path = .ok l)
    (hslash : Path.endsInSlash path = false) (bytes : List UInt8) (mode : Nat) :
    (s.put l (.file bytes mode)).open? path = .ok (.file bytes mode) := by
  have hne : l ≠ [] := ne_nil_of_ne_directory (by rw [node?_of_locateNew hlocate]; simp)
  have hnode := node?_put_self s (.file bytes mode) hne
  rcases locateNew_eq_ok_iff.1 hlocate with ⟨-, -, -, hfault, -⟩
  have hwalk := walk_of_locateNew (directories_put_of_locateNew hlocate (.file bytes mode)) hlocate
  simp [open?, FileStore.locate, hfault, hwalk, hnode, hslash]

/-- The bits of a new file are set and its bytes are written. -/
theorem append_setMode_put {l : Location} (h : l ≠ []) (mode mode' : Nat) (bytes : List UInt8) :
    ((s.put l (.file [] mode)).setMode l mode').append l bytes = s.put l (.file bytes mode') := by
  have hputs (n n' : Node) : (s.put l n).put l n' = s.put l n' := by
    simp [put, List.filter_filter]
  simp [setMode, append, h, hputs]

/-- A name without slashes ends in none. -/
theorem IsFileName.endsInSlash {name : String} (h : IsFileName name) :
    Path.endsInSlash name = false := by
  by_contra hslash
  rw [Bool.not_eq_false, Path.endsInSlash, beq_iff_eq] at hslash
  exact h.no_slash (List.mem_of_getLast? hslash)

section

variable {name : String} {c : Char} {cs : List Char}

/-- In an empty directory a new file can have the name of any single file that starts with
a letter, if its path is not too long. -/
theorem EmptyDirectory.locateNew_join (h : s.EmptyDirectory path) (hname : name.toList = c :: cs)
    (hc : c ≠ '/') (hdot : c ≠ '.') (hfile : IsFileName name)
    (hsize : (Path.join path name).utf8ByteSize ≤ pathLimit) :
    s.locateNew (Path.join path name) = .ok (target path ++ [name]) ∧
      Path.endsInSlash (Path.join path name) = false := by
  have habsolute : Path.isAbsolute name = false := by simp [Path.isAbsolute, hname, hc]
  have hne : name ≠ "" := by rintro rfl; simp at hname
  have hnot (dots : String) (hdots : dots.toList.head? = some '.') : name ≠ dots := by
    rintro rfl
    simp [hname, hdot] at hdots
  rcases walk_of_locate h.locate with ⟨hfault, hwalk⟩
  constructor
  · refine locateNew_eq_ok_iff.2 ⟨Path.parts path, name, target path, ?_, ?_, hwalk, ?_⟩
    · refine pathFault?_eq_none_iff.2 ⟨fun hmem => ?_, fun hempty => ?_, hsize⟩
      · rcases (Path.mem_toList_join habsolute path (by decide)).1 hmem with hmem | hmem
        · exact (pathFault?_eq_none_iff.1 hfault).1 hmem
        · exact hfile.no_nul hmem
      · rcases Path.exists_toList_join habsolute path with ⟨between, -, hjoin⟩
        simp [hempty, hname] at hjoin
    · rw [Path.parts_join habsolute, Path.parts_of_no_slash hfile.no_slash hne]
    · exact locateIn_eq_ok_iff.2 ⟨h.node?_target, hnot "." (by simp), hnot ".." (by simp),
        hfile.size, h.free (by simp), rfl⟩
  · rw [Path.endsInSlash_join habsolute hne, hfile.endsInSlash]

/-- Only the names of single files can be those of new files in an empty directory, if they
start with a letter, and their paths are not too long. -/
theorem EmptyDirectory.isFileName_of_locateNew (h : s.EmptyDirectory path)
    (hname : name.toList = c :: cs) (hc : c ≠ '/') (hdot : c ≠ '.') {l : Location}
    (hlocate : s.locateNew (Path.join path name) = .ok l)
    (hslash : Path.endsInSlash (Path.join path name) = false) :
    IsFileName name ∧ (Path.join path name).utf8ByteSize ≤ pathLimit := by
  have habsolute : Path.isAbsolute name = false := by simp [Path.isAbsolute, hname, hc]
  have hne : name ≠ "" := by rintro rfl; simp at hname
  have hempty := fun first => h.free (List.cons_ne_nil first [])
  obtain rfl := eq_target_of_locateNew hlocate
  rcases exists_parts_of_empty hname hc hdot hempty hlocate with ⟨first, hparts, -, -⟩
  rcases locateNew_eq_ok_iff.1 hlocate with ⟨way, last, directory, hfault, hway, -, hin⟩
  rcases pathFault?_eq_none_iff.1 hfault with ⟨hnul, -, hsize⟩
  rw [Path.endsInSlash_join habsolute hne] at hslash
  have hno := Path.no_slash_of_parts hname hc hslash hparts
  have hlast : last = name := by
    rw [Path.parts_join habsolute, Path.parts_of_no_slash hno hne] at hway
    simpa using (List.append_inj_right' hway rfl).symm
  have hlength := (locateIn_eq_ok_iff.1 hin).2.2.2.1
  rw [hlast] at hlength
  refine ⟨⟨hno, fun hmem => hnul ?_, hlength⟩, hsize⟩
  exact (Path.mem_toList_join habsolute path (by decide)).2 (.inr hmem)

end

/-- A new file is the only entry of its directory. -/
theorem EmptyDirectory.below_put (h : s.EmptyDirectory path) {file name : String}
    (hlocate : s.locateNew file = .ok (target path ++ [name])) (bytes : List UInt8) (mode : Nat) :
    (s.put (target path ++ [name]) (.file bytes mode)).below path
      = [([name], .file bytes mode)] := by
  have hdirectories := directories_put_of_locateNew hlocate (.file bytes mode)
  have hfound := locate_of_directories hdirectories h.locate h.node?_target
  have hbefore := h.empty
  simp only [below, h.locate, List.filterMap_eq_nil_iff] at hbefore
  simp only [below, hfound]
  rw [put, List.filterMap_cons,
    List.filterMap_eq_nil_iff.2 fun e he => hbefore e (List.mem_of_mem_filter he)]
  simp

end FileStore

end TableFixture
