import Mathlib.Data.List.Induction
import TableFixture.Proofs.Files.Target

/-!
# Trees of directories

In a closed file store whatever exists stands in a directory, so that nothing stands below
what does not exist.  A path is resolved along directories; a store that has the
directories of another resolves at least the paths that the other one resolves.

Main results:

- Theorem `eq_target_of_locate`, `eq_target_of_locateNew`: a path leads where it names.
- Theorem `walk_of_directories`: more directories do not lead paths astray.
- Theorem `locate_of_locateNew`: what becomes of a path at which something could be created.
- Theorem `makeDirectory_eq_ok`, `createNew_eq_ok`, `overwrite_eq_ok`: what is made or
  written where a path names.
- Theorem `Closed.of_writes`, `Closed.put_directory`, `Closed.eraseTree`: trees stay closed.
-/

namespace TableFixture.FileStore

open TableFixture.Path (next target)

/-! ## Closed stores -/

/-- Whatever exists stands in a directory. -/
def Closed (s : FileStore) : Prop :=
  ∀ l name, s.node? (l ++ [name]) ≠ none → s.node? l = some .directory

@[simp] theorem node?_nil (s : FileStore) : s.node? [] = some .directory := by
  simp [node?]

theorem ne_nil_of_ne_directory {s : FileStore} {l : Location}
    (h : s.node? l ≠ some .directory) : l ≠ [] := by
  rintro rfl
  exact h s.node?_nil

/-- Nothing stands at or below a location that is free. -/
theorem Closed.eq_none_of_below {s : FileStore} (h : s.Closed) {l l' : Location}
    (hl : s.node? l = none) (hbelow : l <+: l') : s.node? l' = none := by
  rcases hbelow with ⟨names, rfl⟩
  induction names using List.reverseRecOn with
  | nil => rwa [List.append_nil]
  | append_singleton names name ih =>
      by_contra hsome
      rw [← List.append_assoc] at hsome
      have hdirectory := h (l ++ names) name hsome
      rw [ih] at hdirectory
      cases hdirectory

/-! ## Resolving paths -/

theorem walk_append (s : FileStore) (here : Location) (ps qs : List String) :
    s.walk here (ps ++ qs) = s.walk here ps >>= fun l => s.walk l qs := by
  induction ps generalizing here with
  | nil => rfl
  | cons part rest ih =>
      rw [List.cons_append, walk, walk]
      split
      · rfl
      · rfl
      · split
        · exact ih here
        · split
          · exact ih here.dropLast
          · split
            · rfl
            · split
              · rfl
              · exact ih (here ++ [part])

/-- A walk goes on from a directory to where its next part leads, which has to exist if it
lies below. -/
theorem walk_cons_eq_ok_iff {s : FileStore} {here l : Location} {part : String}
    {rest : List String} :
    s.walk here (part :: rest) = .ok l ↔
      s.node? here = some .directory ∧ s.walk (next here part) rest = .ok l ∧
        (part = "." ∨ part = ".." ∨
          (part.utf8ByteSize ≤ nameLimit ∧ s.node? (here ++ [part]) ≠ none)) := by
  rw [walk, next]
  split
  next hnone => simp [hnone]
  next hfile => simp [hfile]
  next hdirectory =>
    by_cases hdot : part = "."
    · simp [hdirectory, hdot]
    · by_cases hup : part = ".."
      · simp [hdirectory, hup]
      · by_cases hsize : nameLimit < part.utf8ByteSize
        · simp [hdot, hup, hsize, Nat.not_le.2 hsize]
        · cases hnext : s.node? (here ++ [part]) with
          | none => simp [hdot, hup, hsize]
          | some node => simp [hdirectory, hdot, hup, hsize, Nat.le_of_not_lt hsize]

/-- A walk ends where its parts lead. -/
theorem eq_foldl_of_walk {s : FileStore} {here l : Location} {ps : List String}
    (h : s.walk here ps = .ok l) : l = ps.foldl next here := by
  induction ps generalizing here with
  | nil => exact (Except.ok.inj h).symm
  | cons part rest ih => exact ih (walk_cons_eq_ok_iff.1 h).2.1

/-- A walk that ends in a directory starts in one. -/
theorem directory_of_walk {s : FileStore} {here l : Location} {ps : List String}
    (h : s.walk here ps = .ok l) (hl : s.node? l = some .directory) :
    s.node? here = some .directory := by
  cases ps with
  | nil => rwa [Except.ok.inj h]
  | cons part rest => exact (walk_cons_eq_ok_iff.1 h).1

/-- A store that has the directories of another leads to the same directories. -/
theorem walk_of_directories {s s' : FileStore}
    (hdirectories : ∀ l, s.node? l = some .directory → s'.node? l = some .directory)
    {here l : Location} {ps : List String} (h : s.walk here ps = .ok l)
    (hl : s.node? l = some .directory) : s'.walk here ps = .ok l := by
  induction ps generalizing here with
  | nil => exact h
  | cons part rest ih =>
      rcases walk_cons_eq_ok_iff.1 h with ⟨hhere, hrest, hpart⟩
      refine walk_cons_eq_ok_iff.2 ⟨hdirectories here hhere, ih hrest, ?_⟩
      by_cases hdot : part = "."
      · exact .inl hdot
      · by_cases hup : part = ".."
        · exact .inr (.inl hup)
        · -- What the walk passes through is a directory, as the walk goes on from there.
          have hnext := hdirectories _ (directory_of_walk hrest hl)
          rw [Path.next_of_ne hdot hup] at hnext
          have hsize := ((hpart.resolve_left hdot).resolve_left hup).1
          exact .inr (.inr ⟨hsize, by simp [hnext]⟩)

/-- What is found at a path is found by walking its parts. -/
theorem walk_of_locate {s : FileStore} {path : String} {l : Location}
    (h : s.locate path = .ok l) : pathFault? path = none ∧ s.walk [] (Path.parts path) = .ok l := by
  unfold locate at h
  split at h
  · cases h
  next hfault =>
    split at h
    · cases h
    next hwalk =>
      split at h
      · cases h
      · rw [← Except.ok.inj h]
        exact ⟨hfault, hwalk⟩

/-- A path leads where it names. -/
theorem eq_target_of_locate {s : FileStore} {path : String} {l : Location}
    (h : s.locate path = .ok l) : l = target path :=
  eq_foldl_of_walk (walk_of_locate h).2

/-- A store that has the directories of another finds them at the same paths. -/
theorem locate_of_directories {s s' : FileStore}
    (hdirectories : ∀ l, s.node? l = some .directory → s'.node? l = some .directory)
    {path : String} {l : Location} (h : s.locate path = .ok l)
    (hl : s.node? l = some .directory) : s'.locate path = .ok l := by
  rcases walk_of_locate h with ⟨hfault, hwalk⟩
  have hwalk' := walk_of_directories hdirectories hwalk hl
  simp [locate, hfault, hwalk', hasDirectory, hdirectories l hl]

theorem locateIn_eq_ok_iff {s : FileStore} {directory l : Location} {name : String} :
    s.locateIn directory name = .ok l ↔
      s.node? directory = some .directory ∧ name ≠ "." ∧ name ≠ ".." ∧
        name.utf8ByteSize ≤ nameLimit ∧ s.node? (directory ++ [name]) = none ∧
        l = directory ++ [name] := by
  constructor
  · intro h
    unfold locateIn at h
    split at h
    · cases h
    · cases h
    next hdirectory =>
      split at h
      · cases h
      next hdot =>
        split at h
        · cases h
        next hsize =>
          split at h
          · cases h
          next hfree =>
            simp only [Bool.or_eq_true, decide_eq_true_eq, not_or] at hdot
            exact ⟨hdirectory, hdot.1, hdot.2, Nat.le_of_not_lt hsize, by simpa using hfree,
              (Except.ok.inj h).symm⟩
  · rintro ⟨hdirectory, hdot, hup, hsize, hfree, rfl⟩
    simp [locateIn, hdirectory, hdot, hup, Nat.not_lt.2 hsize, hfree]

/-- Something new can be created at a path if its parts but the last lead to a directory
in which the last one can be a new name. -/
theorem locateNew_eq_ok_iff {s : FileStore} {path : String} {l : Location} :
    s.locateNew path = .ok l ↔
      ∃ way name directory, pathFault? path = none ∧ Path.parts path = way ++ [name] ∧
        s.walk [] way = .ok directory ∧ s.locateIn directory name = .ok l := by
  constructor
  · intro h
    unfold locateNew at h
    split at h
    · cases h
    next hfault =>
      split at h
      · cases h
      next name hname =>
        split at h
        · cases h
        next directory hwalk =>
          rcases List.getLast?_eq_some_iff.1 hname with ⟨way, hparts⟩
          rw [hparts, List.dropLast_concat] at hwalk
          exact ⟨way, name, directory, hfault, hparts, hwalk, h⟩
  · rintro ⟨way, name, directory, hfault, hparts, hwalk, hlocate⟩
    unfold locateNew
    simp [hfault, hparts, hwalk, hlocate]

/-- What is created at a path stands where it names. -/
theorem eq_target_of_locateNew {s : FileStore} {path : String} {l : Location}
    (h : s.locateNew path = .ok l) : l = target path := by
  rcases locateNew_eq_ok_iff.1 h with ⟨way, name, directory, -, hparts, hwalk, hlocate⟩
  rcases locateIn_eq_ok_iff.1 hlocate with ⟨-, hdot, hup, -, -, rfl⟩
  rw [Path.target_of_parts hparts hdot hup, ← eq_foldl_of_walk hwalk]

/-- Where something could be created in a store, the parts lead in a store that has its
directories to what stands there, and nowhere if nothing does. -/
theorem walk_of_locateNew {s s' : FileStore} {path : String} {l : Location}
    (hdirectories : ∀ l, s.node? l = some .directory → s'.node? l = some .directory)
    (h : s.locateNew path = .ok l) :
    s'.walk [] (Path.parts path) = if (s'.node? l).isNone then .error .notFound else .ok l := by
  rcases locateNew_eq_ok_iff.1 h with ⟨way, name, directory, -, hparts, hwalk, hlocate⟩
  rcases locateIn_eq_ok_iff.1 hlocate with ⟨hdirectory, hdot, hup, hsize, -, rfl⟩
  have hway := walk_of_directories hdirectories hwalk hdirectory
  have hlast : s'.walk [] (Path.parts path) = s'.walk directory [name] := by
    rw [hparts, walk_append, hway]
    rfl
  have hsize' : ¬ nameLimit < name.utf8ByteSize := Nat.not_lt.2 hsize
  simp [hlast, walk, hdirectories directory hdirectory, hdot, hup, hsize']

/-- Where something could be created in a store, a store that has its directories finds
what stands there, and nothing if nothing does. -/
theorem locate_of_locateNew {s s' : FileStore} {path : String} {l : Location}
    (hdirectories : ∀ l, s.node? l = some .directory → s'.node? l = some .directory)
    (h : s.locateNew path = .ok l) :
    (s'.node? l = some .directory → s'.locate path = .ok l) ∧
      (s'.node? l = none → s'.locate path = .error .notFound) := by
  rcases locateNew_eq_ok_iff.1 h with ⟨-, -, -, hfault, -⟩
  have hwalk := walk_of_locateNew hdirectories h
  constructor
  · intro hnode
    simp [locate, hfault, hwalk, hnode, hasDirectory]
  · intro hnode
    simp [locate, hfault, hwalk, hnode]

/-! ## Making directories and writing files -/

/-- A change that leaves a file at a location and everything else as it was. -/
structure Writes (s : FileStore) (l : Location) (s' : FileStore) : Prop where
  file : ∃ bytes mode, s'.node? l = some (.file bytes mode)
  frame : ∀ l', l' ≠ l → s'.node? l' = s.node? l'

theorem writes_put (s : FileStore) {l : Location} (h : l ≠ []) (bytes : List UInt8) (mode : Nat) :
    Writes s l (s.put l (.file bytes mode)) :=
  ⟨⟨bytes, mode, node?_put_self s _ h⟩, fun _ h' => node?_put_of_ne s _ h'⟩

theorem Writes.put {s s' : FileStore} {l : Location} (h : Writes s l s') (bytes : List UInt8)
    (mode : Nat) : Writes s l (s'.put l (.file bytes mode)) := by
  rcases h.file with ⟨old, mode', hfile⟩
  have hput := writes_put s' (ne_nil_of_ne_directory (by rw [hfile]; simp)) bytes mode
  exact ⟨hput.file, fun l' hl' => (hput.frame l' hl').trans (h.frame l' hl')⟩

theorem Writes.setMode {s s' : FileStore} {l : Location} (h : Writes s l s') (mode : Nat) :
    Writes s l (s'.setMode l mode) := by
  rcases h.file with ⟨bytes, mode', hfile⟩
  unfold FileStore.setMode
  rw [hfile]
  exact h.put bytes mode

theorem Writes.append {s s' : FileStore} {l : Location} (h : Writes s l s')
    (bytes : List UInt8) : Writes s l (s'.append l bytes) := by
  rcases h.file with ⟨old, mode, hfile⟩
  unfold FileStore.append
  rw [hfile]
  exact h.put (old ++ bytes) mode

/-- A directory is made where its path names. -/
theorem makeDirectory_eq_ok {s s' : FileStore} {path : String}
    (h : s.makeDirectory path = .ok s') :
    s.locateNew path = .ok (target path) ∧ s' = s.put (target path) .directory := by
  unfold makeDirectory at h
  split at h
  · cases h
  next l hlocate =>
    obtain rfl := eq_target_of_locateNew hlocate
    exact ⟨hlocate, (Except.ok.inj h).symm⟩

/-- A new file is put where something new can be created, at a path that does not end in a
slash. -/
theorem createNew_eq_ok_iff {s s' : FileStore} {path : String} {mode : Nat} {l : Location} :
    s.createNew path mode = .ok (l, s') ↔
      s.locateNew path = .ok l ∧ Path.endsInSlash path = false ∧
        s' = s.put l (.file [] (mode - (mode &&& s.mask))) := by
  unfold createNew
  split
  next hlocate => simp [hlocate]
  next l' hlocate =>
    by_cases hslash : Path.endsInSlash path = true
    · simp [hslash]
    · simp only [hslash, hlocate, Except.ok.injEq, Prod.mk.injEq, Bool.false_eq_true, if_false,
        true_and]
      constructor
      · rintro ⟨rfl, rfl⟩
        exact ⟨rfl, rfl⟩
      · rintro ⟨rfl, rfl⟩
        exact ⟨rfl, rfl⟩

/-- A new file is written where its path names, which does not end in a slash. -/
theorem createNew_eq_ok {s s' : FileStore} {path : String} {mode : Nat} {l : Location}
    (h : s.createNew path mode = .ok (l, s')) :
    s.locateNew path = .ok l ∧ Path.endsInSlash path = false ∧ Writes s l s' := by
  rcases createNew_eq_ok_iff.1 h with ⟨hlocate, hslash, rfl⟩
  have hne : l ≠ [] := ne_nil_of_ne_directory (by rw [node?_of_locateNew hlocate]; simp)
  exact ⟨hlocate, hslash, writes_put s hne _ _⟩

/-- Overwriting writes a file where its path names: one that existed, or a new one. -/
theorem overwrite_eq_ok {s s' : FileStore} {path : String} {bytes : List UInt8}
    (h : s.overwrite path bytes = .ok s') :
    Writes s (target path) s' ∧
      ((∃ old mode, s.node? (target path) = some (.file old mode)) ∨
        (s.locateNew path = .ok (target path) ∧ Path.endsInSlash path = false)) := by
  unfold overwrite at h
  split at h
  next l hlocate =>
    obtain rfl := eq_target_of_locate hlocate
    split at h
    next old mode hfile =>
      rw [← Except.ok.inj h]
      have hne : target path ≠ [] := ne_nil_of_ne_directory (by rw [hfile]; simp)
      exact ⟨writes_put s hne _ _, .inl ⟨old, mode, hfile⟩⟩
    · cases h
  · split at h
    · cases h
    next l s'' hcreate =>
      rcases createNew_eq_ok hcreate with ⟨hlocate, hslash, hwrites⟩
      obtain rfl := eq_target_of_locateNew hlocate
      rw [← Except.ok.inj h]
      exact ⟨hwrites.append bytes, .inr ⟨hlocate, hslash⟩⟩
  · cases h

/-! ## Trees stay closed -/

theorem parent_of_locateNew {s : FileStore} {path : String} {l : Location}
    (h : s.locateNew path = .ok l) {directory : Location} {name : String}
    (hl : l = directory ++ [name]) : s.node? directory = some .directory := by
  rcases locateNew_eq_ok_iff.1 h with ⟨-, name', directory', -, -, -, hlocate⟩
  rcases locateIn_eq_ok_iff.1 hlocate with ⟨hdirectory, -, -, -, -, rfl⟩
  rw [← (List.append_inj_left' hl rfl)]
  exact hdirectory

/-- Writing a file in a directory keeps a tree closed. -/
theorem Closed.of_writes {s s' : FileStore} (h : s.Closed) {l : Location} (hwrites : Writes s l s')
    (hfree : s.node? l ≠ some .directory)
    (hparent : ∀ directory name, l = directory ++ [name] → s.node? directory = some .directory) :
    s'.Closed := by
  intro l' name hsome
  have hdirectory : s.node? l' = some .directory := by
    by_cases hl : l' ++ [name] = l
    · exact hparent l' name hl.symm
    · rw [hwrites.frame _ hl] at hsome
      exact h l' name hsome
  rw [hwrites.frame l' (fun hl => hfree (hl ▸ hdirectory)), hdirectory]

/-- Making a directory in a directory keeps a tree closed. -/
theorem Closed.put_directory {s : FileStore} (h : s.Closed) {path : String} {l : Location}
    (hlocate : s.locateNew path = .ok l) : (s.put l .directory).Closed := by
  have hfree := node?_of_locateNew hlocate
  intro l' name hsome
  have hdirectory : s.node? l' = some .directory := by
    by_cases hl : l' ++ [name] = l
    · exact parent_of_locateNew hlocate hl.symm
    · rw [node?_put_of_ne s _ hl] at hsome
      exact h l' name hsome
  have hne : l' ≠ l := fun hl => by
    rw [hl, hfree] at hdirectory
    cases hdirectory
  rw [node?_put_of_ne s _ hne, hdirectory]

theorem node?_eraseTree_of_below (s : FileStore) {l l' : Location} (h : l ≠ []) (hl : l <+: l') :
    (s.eraseTree l).node? l' = none := by
  have hne : l' ≠ [] := fun hnil => h (List.prefix_nil.1 (hnil ▸ hl))
  have hbelow : l.isPrefixOf l' = true := List.isPrefixOf_iff_prefix.2 hl
  rw [node?_eraseTree s hne, if_pos hbelow]

theorem node?_eraseTree_of_not_below (s : FileStore) {l l' : Location} (hl : ¬ l <+: l') :
    (s.eraseTree l).node? l' = s.node? l' := by
  by_cases hne : l' = []
  · simp [hne]
  · have hbelow : l.isPrefixOf l' ≠ true := mt List.isPrefixOf_iff_prefix.1 hl
    rw [node?_eraseTree s hne, if_neg hbelow]

/-- Erasing a tree keeps a tree closed. -/
theorem Closed.eraseTree {s : FileStore} (h : s.Closed) {l : Location} (hl : l ≠ []) :
    (s.eraseTree l).Closed := by
  intro l' name hsome
  by_cases hbelow : l <+: l' ++ [name]
  · rw [node?_eraseTree_of_below s hl hbelow] at hsome
    exact absurd rfl hsome
  · have hbelow' : ¬ l <+: l' := fun h' => hbelow (h'.trans (List.prefix_append l' [name]))
    rw [node?_eraseTree_of_not_below s hbelow] at hsome
    rw [node?_eraseTree_of_not_below s hbelow']
    exact h l' name hsome

end TableFixture.FileStore
