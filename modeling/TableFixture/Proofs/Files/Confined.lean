import Mathlib.Data.List.Basic
import TableFixture.Proofs.Files.Hosting

/-!
# Changes confined to fresh directories

Directories are made side by side below one base, under names that differ in their endings;
files are written below them, and they are removed again.  Such changes are confined to the
directories that were made: everything else stays as it was, and the directories that were
made stand exactly if they were not removed.  Once all of them are removed the store holds
what it held before.

Main results:

- Theorem `Confined.makeDirectory`, `Confined.overwrite`, `Confined.createNew`,
  `Confined.cleared`: every change stays confined.
- Theorem `Confined.locate_of_standing`, `Confined.locate_of_removed`: the directories that
  were made are found exactly if they stand.
- Theorem `Confined.node?_eq`: without the directories nothing has changed.
-/

namespace TableFixture.FileStore

open TableFixture.Path (target)

/-- A store after removing the directory at a path, if there is one. -/
def cleared (s : FileStore) (path : String) : FileStore :=
  match s.removeTree path with
  | .ok s' => s'
  | .error _ => s

/-- The changes from one store to another are confined to directories that were made, of
which some are standing. -/
structure Confined (s₀ : FileStore) (base leading : String) (made standing : List String)
    (s : FileStore) : Prop where
  closed : s.Closed
  ends : ∀ p ∈ made, Path.Ends base leading p
  creatable : ∀ p ∈ made, s₀.locateNew p = .ok (target p)
  outside : ∀ l, (∀ p ∈ made, ¬ target p <+: l) → s.node? l = s₀.node? l
  stands : ∀ p ∈ made, s.node? (target p) = if p ∈ standing then some .directory else none

theorem Confined.refl {s : FileStore} (h : s.Closed) (base leading : String) :
    Confined s base leading [] [] s where
  closed := h
  ends := by simp
  creatable := by simp
  outside := fun _ _ => rfl
  stands := by simp

section

variable {s₀ s s' : FileStore} {base leading : String} {made standing : List String} {p : String}

/-- Before a directory was made nothing stood there or below. -/
theorem Confined.free (h : Confined s₀ base leading made standing s) (h₀ : s₀.Closed)
    (hp : p ∈ made) {l : Location} (hl : target p <+: l) : s₀.node? l = none :=
  h₀.eq_none_of_below (node?_of_locateNew (h.creatable p hp)) hl

/-- The directories that were there before are there still. -/
theorem Confined.directories (h : Confined s₀ base leading made standing s) (h₀ : s₀.Closed) :
    ∀ l, s₀.node? l = some .directory → s.node? l = some .directory := by
  intro l hl
  rw [h.outside l fun p hp hbelow => ?_, hl]
  rw [h.free h₀ hp hbelow] at hl
  cases hl

/-- A directory that stands is found. -/
theorem Confined.locate_of_standing (h : Confined s₀ base leading made standing s)
    (h₀ : s₀.Closed) (hp : p ∈ made) (hstanding : p ∈ standing) :
    s.locate p = .ok (target p) ∧ s.hasDirectory (target p) = true := by
  have hnode : s.node? (target p) = some .directory := by
    rw [h.stands p hp, if_pos hstanding]
  exact ⟨(locate_of_locateNew (h.directories h₀) (h.creatable p hp)).1 hnode,
    by simp [hasDirectory, hnode]⟩

/-- A directory that was removed is not found. -/
theorem Confined.locate_of_removed (h : Confined s₀ base leading made standing s)
    (h₀ : s₀.Closed) (hp : p ∈ made) (hremoved : p ∉ standing) :
    s.locate p = .error .notFound := by
  have hnode : s.node? (target p) = none := by
    rw [h.stands p hp, if_neg hremoved]
  exact (locate_of_locateNew (h.directories h₀) (h.creatable p hp)).2 hnode

/-- Without the directories that were made nothing has changed. -/
theorem Confined.node?_eq (h : Confined s₀ base leading made standing s) (h₀ : s₀.Closed)
    (hremoved : ∀ p ∈ made, p ∉ standing) (l : Location) : s.node? l = s₀.node? l := by
  by_cases hl : ∃ p ∈ made, target p <+: l
  · rcases hl with ⟨p, hp, hbelow⟩
    have hnode : s.node? (target p) = none := by
      rw [h.stands p hp, if_neg (hremoved p hp)]
    rw [h.closed.eq_none_of_below hnode hbelow, h.free h₀ hp hbelow]
  · exact h.outside l fun p hp hbelow => hl ⟨p, hp, hbelow⟩

/-! ## Making directories -/

/-- A store to which changes are confined hosts the directories that were made. -/
theorem Confined.hosts (h : Confined s₀ base leading made standing s) (h₀ : s₀.Closed) :
    Hosts s₀ base leading made s where
  closed := h.closed
  ends := h.ends
  creatable := h.creatable
  occupied := by
    intro l hl
    rwa [h.outside l fun p hp hbelow => hl (h.free h₀ hp hbelow)]
  directories := h.directories h₀
  untouched := fun hmade l => h.outside l (by simp [hmade])

/-- What can be created under an ending now could be created before. -/
theorem Confined.locateNew (h : Confined s₀ base leading made standing s) (h₀ : s₀.Closed)
    (hends : Path.Ends base leading p) (hlocate : s.locateNew p = .ok (target p)) :
    s₀.locateNew p = .ok (target p) :=
  (h.hosts h₀).locateNew hends hlocate

/-- Making a fresh directory stays confined. -/
theorem Confined.makeDirectory (h : Confined s₀ base leading made standing s) (h₀ : s₀.Closed)
    (hends : Path.Ends base leading p) (hmake : s.makeDirectory p = .ok s') :
    Confined s₀ base leading (made ++ [p]) (standing ++ [p]) s' := by
  rcases makeDirectory_eq_ok hmake with ⟨hlocate, rfl⟩
  have hfree := node?_of_locateNew hlocate
  have hne : target p ≠ [] := ne_nil_of_ne_directory (by rw [hfree]; simp)
  refine ⟨h.closed.put_directory hlocate, ?_, ?_, ?_, ?_⟩
  · intro q hq
    rcases List.mem_append.1 hq with hq | hq
    · exact h.ends q hq
    · exact List.mem_singleton.1 hq ▸ hends
  · intro q hq
    rcases List.mem_append.1 hq with hq | hq
    · exact h.creatable q hq
    · exact List.mem_singleton.1 hq ▸ h.locateNew h₀ hends hlocate
  · intro l hl
    have hneq : l ≠ target p := fun heq => hl p (by simp) (heq ▸ List.prefix_refl _)
    rw [node?_put_of_ne s _ hneq]
    exact h.outside l fun q hq => hl q (List.mem_append_left _ hq)
  · intro q hq
    by_cases hqp : q = p
    · subst hqp
      rw [node?_put_self s _ hne, if_pos (by simp)]
    · have hmade : q ∈ made := by simpa [hqp] using hq
      have hneq : target q ≠ target p := fun heq =>
        hqp ((h.ends q hmade).eq_of_below hends (heq ▸ List.prefix_refl _))
      rw [node?_put_of_ne s _ hneq, h.stands q hmade]
      simp [hqp]

/-- A directory that was just made is empty. -/
theorem Closed.empty_of_makeDirectory (h : s.Closed) (hmake : s.makeDirectory p = .ok s')
    (first : String) : s'.node? (target p ++ [first]) = none := by
  rcases makeDirectory_eq_ok hmake with ⟨hlocate, rfl⟩
  rw [node?_put_of_ne s _ (by simp)]
  exact h.eq_none_of_below (node?_of_locateNew hlocate) (List.prefix_append _ _)

/-! ## Writing files -/

/-- Writing a file strictly below a directory that was made stays confined. -/
theorem Confined.writes (h : Confined s₀ base leading made standing s) (hp : p ∈ made)
    {l : Location} (hwrites : Writes s l s') (hl : target p <+: l) (hne : l ≠ target p)
    (hfree : s.node? l ≠ some .directory)
    (hparent : ∀ directory name, l = directory ++ [name] → s.node? directory = some .directory) :
    Confined s₀ base leading made standing s' where
  closed := h.closed.of_writes hwrites hfree hparent
  ends := h.ends
  creatable := h.creatable
  outside := by
    intro l' hl'
    rw [hwrites.frame l' fun heq => hl' p hp (heq ▸ hl)]
    exact h.outside l' hl'
  stands := by
    intro q hq
    have hneq : target q ≠ l := fun heq => by
      have hpq := (h.ends p hp).eq_of_below (h.ends q hq) (heq ▸ hl)
      exact hne (heq ▸ hpq ▸ rfl)
    rw [hwrites.frame _ hneq]
    exact h.stands q hq

/-- A new file whose name is one inside a directory lies strictly below it. -/
theorem ne_target_of_locateNew {name : String} (hname : Path.IsInside name)
    (hlocate : s.locateNew (Path.join p name) = .ok (target (Path.join p name)))
    (hslash : Path.endsInSlash (Path.join p name) = false) :
    target (Path.join p name) ≠ target p := by
  rcases locateNew_eq_ok_iff.1 hlocate with ⟨way, last, directory, hfault, hparts, hwalk, hin⟩
  rcases locateIn_eq_ok_iff.1 hin with ⟨-, hdot, hup, -, -, -⟩
  rw [Path.parts_join hname.1] at hparts
  rcases List.eq_nil_or_concat' (Path.parts name) with hnil | ⟨names, last', hnames⟩
  · -- Without parts the name is empty, and what it is joined to can be no file.
    obtain rfl := Path.eq_empty_of_parts_eq_nil hname.1 hnil
    rcases Path.join_empty p with hempty | hslash'
    · rw [hempty] at hfault
      simp [pathFault?] at hfault
    · rw [hslash] at hslash'
      cases hslash'
  · rw [hnames, ← List.append_assoc] at hparts
    obtain rfl : last' = last := by simpa using (List.append_inj_right' hparts rfl)
    have hinside : Path.StaysInside 0 names := Path.StaysInside.of_append (hnames ▸ hname.2)
    have hbelow := Path.prefix_foldl_next hinside (List.prefix_refl (target p)) (by simp)
    rw [Path.target_join hname.1, hnames, List.foldl_append, List.foldl_cons, List.foldl_nil,
      Path.next_of_ne hdot hup]
    intro heq
    have hlength := hbelow.length_le
    rw [← heq, List.length_append, List.length_singleton, heq] at hlength
    omega

/-- Overwriting what is inside a directory that was made stays confined. -/
theorem Confined.overwrite (h : Confined s₀ base leading made standing s) (hp : p ∈ made)
    {name : String} (hname : Path.IsInside name) {bytes : List UInt8}
    (hwrite : s.overwrite (Path.join p name) bytes = .ok s') :
    Confined s₀ base leading made standing s' := by
  have hbelow := Path.target_prefix_join hname p
  rcases overwrite_eq_ok hwrite with ⟨hwrites, ⟨old, mode, hfile⟩ | ⟨hlocate, hslash⟩⟩
  · refine h.writes hp hwrites hbelow ?_ (by simp [hfile]) ?_
    · intro heq
      have hstands := h.stands p hp
      rw [← heq, hfile] at hstands
      split at hstands <;> cases hstands
    · intro directory last hl
      exact h.closed directory last (by rw [← hl, hfile]; simp)
  · exact h.writes hp hwrites hbelow (ne_target_of_locateNew hname hlocate hslash)
      (by simp [node?_of_locateNew hlocate]) fun _ _ => parent_of_locateNew hlocate

/-- In an empty directory a name that starts with a letter can only be that of something new
if it has a single part: others would have to pass through an entry that is not there. -/
theorem exists_parts_of_empty {name : String} {c : Char} {cs : List Char}
    (hname : name.toList = c :: cs) (hslash : c ≠ '/') (hdot : c ≠ '.')
    (hempty : ∀ first, s.node? (target p ++ [first]) = none)
    (hlocate : s.locateNew (Path.join p name) = .ok (target (Path.join p name))) :
    ∃ first, Path.parts name = [first] ∧ first ≠ "." ∧ first ≠ ".." := by
  have habsolute : Path.isAbsolute name = false := by simp [Path.isAbsolute, hname, hslash]
  rcases Path.exists_parts_eq_cons hname hslash with ⟨first, rest, hparts, hfirst⟩
  have hone : first ≠ "." := by rintro rfl; simp [hdot.symm] at hfirst
  have htwo : first ≠ ".." := by rintro rfl; simp [hdot.symm] at hfirst
  rcases List.eq_nil_or_concat' rest with rfl | ⟨middle, last, rfl⟩
  · exact ⟨first, hparts, hone, htwo⟩
  · exfalso
    rcases locateNew_eq_ok_iff.1 hlocate with ⟨way, last', directory, -, hway, hwalk, -⟩
    rw [Path.parts_join habsolute, hparts, ← List.cons_append, ← List.append_assoc] at hway
    obtain rfl := List.append_inj_left' hway rfl
    rw [walk_append] at hwalk
    cases hbase : s.walk [] (Path.parts p) with
    | error kind =>
        rw [hbase] at hwalk
        cases hwalk
    | ok l =>
        obtain rfl : l = target p := eq_foldl_of_walk hbase
        rw [hbase] at hwalk
        have hentry := (walk_cons_eq_ok_iff.1 hwalk).2.2
        exact ((hentry.resolve_left hone).resolve_left htwo).2 (hempty first)

/-- In an empty directory a new file is an entry of the directory itself, whatever its name,
if that starts with a letter. -/
theorem exists_target_join_of_empty {name : String} {c : Char} {cs : List Char}
    (hname : name.toList = c :: cs) (hslash : c ≠ '/') (hdot : c ≠ '.')
    (hempty : ∀ first, s.node? (target p ++ [first]) = none)
    (hlocate : s.locateNew (Path.join p name) = .ok (target (Path.join p name))) :
    ∃ first, target (Path.join p name) = target p ++ [first] := by
  have habsolute : Path.isAbsolute name = false := by simp [Path.isAbsolute, hname, hslash]
  rcases exists_parts_of_empty hname hslash hdot hempty hlocate with ⟨first, hparts, hone, htwo⟩
  refine ⟨first, ?_⟩
  rw [Path.target_join habsolute, hparts, List.foldl_cons, List.foldl_nil,
    Path.next_of_ne hone htwo]

/-- Creating a file in an empty directory that was made stays confined. -/
theorem Confined.createNew (h : Confined s₀ base leading made standing s) (hp : p ∈ made)
    {name : String} {c : Char} {cs : List Char} (hname : name.toList = c :: cs) (hslash : c ≠ '/')
    (hdot : c ≠ '.') (hempty : ∀ first, s.node? (target p ++ [first]) = none)
    (hlocate : s.locateNew (Path.join p name) = .ok (target (Path.join p name)))
    (hwrites : Writes s (target (Path.join p name)) s') :
    Confined s₀ base leading made standing s' := by
  rcases exists_target_join_of_empty hname hslash hdot hempty hlocate with ⟨first, htarget⟩
  refine h.writes hp hwrites ?_ ?_ (by simp [node?_of_locateNew hlocate])
    fun _ _ => parent_of_locateNew hlocate
  · rw [htarget]
    exact List.prefix_append _ _
  · rw [htarget]
    simp

/-! ## Removing directories -/

theorem Confined.cleared_of_standing (h : Confined s₀ base leading made standing s)
    (h₀ : s₀.Closed) (hp : p ∈ made) (hstanding : p ∈ standing) :
    s.cleared p = s.eraseTree (target p) := by
  rcases h.locate_of_standing h₀ hp hstanding with ⟨hlocate, hdirectory⟩
  simp [FileStore.cleared, removeTree, hlocate, hdirectory]

theorem Confined.cleared_of_removed (h : Confined s₀ base leading made standing s)
    (h₀ : s₀.Closed) (hp : p ∈ made) (hremoved : p ∉ standing) : s.cleared p = s := by
  simp [FileStore.cleared, removeTree, h.locate_of_removed h₀ hp hremoved]

/-- Removing a directory that was made, whether it still stands or not, stays confined, and
it stands no longer. -/
theorem Confined.cleared (h : Confined s₀ base leading made standing s) (h₀ : s₀.Closed)
    (hp : p ∈ made) :
    Confined s₀ base leading made (standing.filter (· ≠ p)) (s.cleared p) := by
  by_cases hstanding : p ∈ standing
  · have hfree := h.free h₀ hp (List.prefix_refl (target p))
    have hne : target p ≠ [] := ne_nil_of_ne_directory (by rw [hfree]; simp)
    rw [h.cleared_of_standing h₀ hp hstanding]
    refine ⟨h.closed.eraseTree hne, h.ends, h.creatable, ?_, ?_⟩
    · intro l hl
      rw [node?_eraseTree_of_not_below s (hl p hp)]
      exact h.outside l hl
    · intro q hq
      by_cases hqp : q = p
      · subst hqp
        rw [node?_eraseTree_of_below s hne (List.prefix_refl _), if_neg (by simp)]
      · have hbelow : ¬ target p <+: target q := fun hbelow =>
          hqp ((h.ends p hp).eq_of_below (h.ends q hq) hbelow).symm
        rw [node?_eraseTree_of_not_below s hbelow, h.stands q hq]
        simp [hqp]
  · have hfilter : standing.filter (· ≠ p) = standing :=
      List.filter_eq_self.2 fun q hq => by simpa using fun hqp : q = p => hstanding (hqp ▸ hq)
    rw [h.cleared_of_removed h₀ hp hstanding, hfilter]
    exact h

end

end TableFixture.FileStore
