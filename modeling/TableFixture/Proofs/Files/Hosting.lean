import TableFixture.Proofs.Files.Tree

/-!
# Stores that host fresh directories

Directories are made side by side below one base, under names that differ in their endings.  What
happens to files meanwhile does not matter to them, as long as whatever stood in the store still
stands there, and directories are removed only if they were made.  Then the way to the base stays
as it was, so that the directories that were made are found where their paths name as long as
they stand, and none of them lies in another one.

Main results:

- Theorem `Hosts.locateNew`: a fresh directory could have been made from the beginning.
- Theorem `Hosts.makeDirectory`, `Hosts.overwrite`, `Hosts.removeTree`: every change leaves a
  store that hosts the directories.
- Theorem `Hosts.locate`: directories that stand are found.
-/

namespace TableFixture.FileStore

open TableFixture.Path (target)

/-- A store hosts directories that were made since it was another store. -/
structure Hosts (s₀ : FileStore) (base leading : String) (made : List String) (s : FileStore) :
    Prop where
  closed : s.Closed
  ends : ∀ p ∈ made, Path.Ends base leading p
  creatable : ∀ p ∈ made, s₀.locateNew p = .ok (target p)
  occupied : ∀ l, s₀.node? l ≠ none → s.node? l ≠ none
  directories : ∀ l, s₀.node? l = some .directory → s.node? l = some .directory
  untouched : made = [] → ∀ l, s.node? l = s₀.node? l

theorem Hosts.refl {s : FileStore} (h : s.Closed) (base leading : String) :
    Hosts s base leading [] s where
  closed := h
  ends := by simp
  creatable := by simp
  occupied := fun _ hl => hl
  directories := fun _ hl => hl
  untouched := fun _ _ => rfl

section

variable {s₀ s s' : FileStore} {base leading : String} {made : List String} {p : String}

/-- Before a directory was made nothing stood there or below. -/
theorem Hosts.free (h : Hosts s₀ base leading made s) (h₀ : s₀.Closed) (hp : p ∈ made)
    {l : Location} (hl : target p <+: l) : s₀.node? l = none :=
  h₀.eq_none_of_below (node?_of_locateNew (h.creatable p hp)) hl

/-- A directory that stands is found. -/
theorem Hosts.locate (h : Hosts s₀ base leading made s) (hp : p ∈ made)
    (hstands : s.node? (target p) = some .directory) : s.locate p = .ok (target p) :=
  (locate_of_locateNew h.directories (h.creatable p hp)).1 hstands

/-! ## Making directories -/

/-- The way to a name with an ending was there before. -/
theorem Hosts.walk_before (h : Hosts s₀ base leading made s) (hends : Path.Ends base leading p)
    {way : List String} {name : String} {directory : Location}
    (hparts : Path.parts p = way ++ [name]) (hwalk : s.walk [] way = .ok directory)
    (hdirectory : s.node? directory = some .directory) :
    s₀.walk [] way = .ok directory ∧ s₀.node? directory = some .directory := by
  cases hmade : made with
  | nil =>
      have hdirectories : ∀ l, s.node? l = some .directory → s₀.node? l = some .directory :=
        fun l hl => (h.untouched hmade l).symm.trans hl
      exact ⟨walk_of_directories hdirectories hwalk hdirectory, hdirectories _ hdirectory⟩
  | cons q qs =>
      -- It is the way to the directories that were made already.
      have hq : q ∈ made := by simp [hmade]
      rcases locateNew_eq_ok_iff.1 (h.creatable q hq) with
        ⟨way', name', directory', -, hparts', hwalk', hin'⟩
      have hways : way = way' := by
        have hdropLast := hends.dropLast_parts (h.ends q hq)
        rwa [hparts, hparts', List.dropLast_concat, List.dropLast_concat] at hdropLast
      subst hways
      have hdirectories : directory = directory' :=
        (eq_foldl_of_walk hwalk).trans (eq_foldl_of_walk hwalk').symm
      subst hdirectories
      exact ⟨hwalk', (locateIn_eq_ok_iff.1 hin').1⟩

/-- What can be created under an ending now could be created before. -/
theorem Hosts.locateNew (h : Hosts s₀ base leading made s) (hends : Path.Ends base leading p)
    (hlocate : s.locateNew p = .ok (target p)) : s₀.locateNew p = .ok (target p) := by
  rcases locateNew_eq_ok_iff.1 hlocate with ⟨way, name, directory, hfault, hparts, hwalk, hin⟩
  rcases locateIn_eq_ok_iff.1 hin with ⟨hdirectory, hdot, hup, hsize, hfree, htarget⟩
  have hway := h.walk_before hends hparts hwalk hdirectory
  have hbefore : s₀.node? (directory ++ [name]) = none := by
    by_contra hsome
    exact h.occupied _ hsome hfree
  refine locateNew_eq_ok_iff.2 ⟨way, name, directory, hfault, hparts, hway.1, ?_⟩
  exact locateIn_eq_ok_iff.2 ⟨hway.2, hdot, hup, hsize, hbefore, htarget⟩

/-- Making a fresh directory is hosted. -/
theorem Hosts.makeDirectory (h : Hosts s₀ base leading made s)
    (hends : Path.Ends base leading p) (hmake : s.makeDirectory p = .ok s') :
    Hosts s₀ base leading (made ++ [p]) s' := by
  rcases makeDirectory_eq_ok hmake with ⟨hlocate, rfl⟩
  have hfree := node?_of_locateNew hlocate
  have hput (l : Location) (hl : s.node? l ≠ none) :
      (s.put (target p) .directory).node? l = s.node? l :=
    node?_put_of_ne s _ fun heq => hl (heq ▸ hfree)
  refine ⟨h.closed.put_directory hlocate, ?_, ?_, ?_, ?_, by simp⟩
  · intro q hq
    rcases List.mem_append.1 hq with hq | hq
    · exact h.ends q hq
    · exact List.mem_singleton.1 hq ▸ hends
  · intro q hq
    rcases List.mem_append.1 hq with hq | hq
    · exact h.creatable q hq
    · exact List.mem_singleton.1 hq ▸ h.locateNew hends hlocate
  · intro l hl
    rw [hput l (h.occupied l hl)]
    exact h.occupied l hl
  · intro l hl
    have hdirectory := h.directories l hl
    rw [hput l (by rw [hdirectory]; simp), hdirectory]

/-! ## Writing files -/

/-- Writing a file where no directory stands is hosted, once there are directories to host. -/
theorem Hosts.writes (h : Hosts s₀ base leading made s) (hmade : made ≠ []) {l : Location}
    (hwrites : Writes s l s') (hfree : s.node? l ≠ some .directory)
    (hparent : ∀ directory name, l = directory ++ [name] → s.node? directory = some .directory) :
    Hosts s₀ base leading made s' where
  closed := h.closed.of_writes hwrites hfree hparent
  ends := h.ends
  creatable := h.creatable
  occupied := by
    intro l' hl'
    by_cases hl : l' = l
    · rcases hwrites.file with ⟨bytes, mode, hfile⟩
      rw [hl, hfile]
      simp
    · rw [hwrites.frame l' hl]
      exact h.occupied l' hl'
  directories := by
    intro l' hl'
    have hdirectory := h.directories l' hl'
    rw [hwrites.frame l' fun hl => hfree (hl ▸ hdirectory), hdirectory]
  untouched := fun hnil => absurd hnil hmade

/-- Overwriting a file, wherever it lies, is hosted. -/
theorem Hosts.overwrite (h : Hosts s₀ base leading made s) (hmade : made ≠ []) {path : String}
    {bytes : List UInt8} (hwrite : s.overwrite path bytes = .ok s') :
    Hosts s₀ base leading made s' := by
  rcases overwrite_eq_ok hwrite with ⟨hwrites, ⟨old, mode, hfile⟩ | ⟨hlocate, -⟩⟩
  · refine h.writes hmade hwrites (by simp [hfile]) fun directory last hl => ?_
    exact h.closed directory last (by rw [← hl, hfile]; simp)
  · exact h.writes hmade hwrites (by simp [node?_of_locateNew hlocate]) fun _ _ =>
      parent_of_locateNew hlocate

/-! ## Removing directories -/

/-- What is removed at a path is the tree where it names. -/
theorem removeTree_eq_ok (h : s.removeTree p = .ok s') :
    s.locate p = .ok (target p) ∧ s.node? (target p) = some .directory ∧
      s' = s.eraseTree (target p) := by
  unfold removeTree at h
  split at h
  · cases h
  next l hlocate =>
    obtain rfl := eq_target_of_locate hlocate
    split at h
    next hdirectory =>
      exact ⟨hlocate, by simpa [hasDirectory] using hdirectory, (Except.ok.inj h).symm⟩
    next => cases h

/-- Removing a directory that was made is hosted. -/
theorem Hosts.removeTree (h : Hosts s₀ base leading made s) (h₀ : s₀.Closed) (hp : p ∈ made)
    (hremove : s.removeTree p = .ok s') : Hosts s₀ base leading made s' := by
  rcases removeTree_eq_ok hremove with ⟨-, -, rfl⟩
  have hne : target p ≠ [] :=
    ne_nil_of_ne_directory (s := s₀) (by rw [h.free h₀ hp (List.prefix_refl _)]; simp)
  -- What stood in the beginning does not lie in a directory that was made.
  have hbefore (l : Location) (hl : s₀.node? l ≠ none) :
      (s.eraseTree (target p)).node? l = s.node? l :=
    node?_eraseTree_of_not_below s fun hbelow => hl (h.free h₀ hp hbelow)
  refine ⟨h.closed.eraseTree hne, h.ends, h.creatable, ?_, ?_, fun hnil => ?_⟩
  · intro l hl
    rw [hbefore l hl]
    exact h.occupied l hl
  · intro l hl
    rw [hbefore l (by rw [hl]; simp)]
    exact h.directories l hl
  · simp [hnil] at hp

end

end TableFixture.FileStore
