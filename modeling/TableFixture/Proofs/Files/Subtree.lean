import TableFixture.Proofs.Files.EmptyDirectory

/-!
# What lies in one directory

The entries at a location and below it are its tree.  What is put or erased elsewhere leaves the
tree as it was.  Once a directory is found where it names, what lies below it and what its files
hold follows from its tree alone, so that nothing that happens elsewhere is seen in it.

Main results:

- Theorem `tree_put`, `tree_eraseTree`, `tree_overwrite`: changes elsewhere leave a tree alone.
- Theorem `node?_eq_of_tree`, `below_eq_of_tree`: what a tree determines.
- Theorem `HoldsOnly.of_tree`: a directory that holds one file goes on holding it.
-/

namespace TableFixture.FileStore

open TableFixture.Path (target)

/-- The entries at a location and below it. -/
def tree (s : FileStore) (l : Location) : List (Location × Node) :=
  s.entries.filter fun e => l.isPrefixOf e.1

/-- A directory holds one file, which can be opened, and nothing else. -/
structure HoldsOnly (s : FileStore) (path name : String) (bytes : List UInt8) (mode : Nat) :
    Prop where
  opened : s.open? (Path.join path name) = .ok (.file bytes mode)
  alone : s.below path = [([name], .file bytes mode)]

section

variable {s s' : FileStore} {l l' : Location} {path : String}

/-! ## Changes elsewhere -/

/-- Putting a node elsewhere leaves a tree as it was. -/
theorem tree_put (h : ¬ l <+: l') (n : Node) : (s.put l' n).tree l = s.tree l := by
  rw [tree, put, List.filter_cons_of_neg (by simpa using h), List.filter_filter]
  refine List.filter_congr fun e _ => ?_
  by_cases hbelow : l <+: e.1
  · have hne : e.1 ≠ l' := fun heq => h (heq ▸ hbelow)
    simp [hne]
  · simp [hbelow]

/-- Erasing a tree leaves those as they were that it neither contains nor lies in. -/
theorem tree_eraseTree (h : ¬ l <+: l') (h' : ¬ l' <+: l) :
    (s.eraseTree l').tree l = s.tree l := by
  rw [tree, eraseTree, List.filter_filter]
  refine List.filter_congr fun e _ => ?_
  by_cases hbelow : l <+: e.1
  · have hnot : ¬ l' <+: e.1 := fun hbelow' =>
      (List.prefix_or_prefix_of_prefix hbelow hbelow').elim h h'
    simp [Bool.eq_false_iff.2 (mt List.isPrefixOf_iff_prefix.1 hnot)]
  · simp [hbelow]

theorem tree_append (h : ¬ l <+: l') (bytes : List UInt8) :
    (s.append l' bytes).tree l = s.tree l := by
  unfold append
  split
  · exact tree_put h _
  · rfl

/-- Overwriting a file elsewhere leaves a tree as it was. -/
theorem tree_overwrite (h : ¬ l <+: target path) {bytes : List UInt8}
    (hwrite : s.overwrite path bytes = .ok s') : s'.tree l = s.tree l := by
  unfold overwrite at hwrite
  split at hwrite
  next hlocate =>
    obtain rfl := eq_target_of_locate hlocate
    split at hwrite
    · obtain rfl := Except.ok.inj hwrite
      exact tree_put h _
    · cases hwrite
  next =>
    split at hwrite
    · cases hwrite
    next hcreate =>
      obtain rfl := Except.ok.inj hwrite
      rcases createNew_eq_ok_iff.1 hcreate with ⟨hlocate, -, rfl⟩
      obtain rfl := eq_target_of_locateNew hlocate
      exact (tree_append h bytes).trans (tree_put h _)
  next => cases hwrite

/-! ## What a tree determines -/

/-- What stands in a tree is found among its entries. -/
theorem lookup_tree (s : FileStore) (h : l <+: l') :
    (s.tree l).lookup l' = s.entries.lookup l' := by
  unfold tree
  induction s.entries with
  | nil => rfl
  | cons e es ih =>
      by_cases hbelow : l <+: e.1
      · rw [List.filter_cons_of_pos (by simpa using hbelow), List.lookup_cons, List.lookup_cons, ih]
      · have hne : l' ≠ e.1 := fun heq => hbelow (heq ▸ h)
        rw [List.filter_cons_of_neg (by simpa using hbelow), ih, List.lookup_cons,
          beq_false_of_ne hne]

theorem node?_eq_of_tree (hne : l ≠ []) (htree : s'.tree l = s.tree l) (h : l <+: l') :
    s'.node? l' = s.node? l' := by
  have hne' : l' ≠ [] := fun hnil => hne (List.prefix_nil.1 (hnil ▸ h))
  rw [node?, node?, if_neg hne', if_neg hne', ← lookup_tree s' h, ← lookup_tree s h, htree]

/-- What lies below a path lies in the tree where it leads. -/
theorem below_eq_filterMap_tree (h : s.locate path = .ok l) :
    s.below path = (s.tree l).filterMap fun e =>
      if l ≠ e.1 then some (e.1.drop l.length, e.2) else none := by
  simp only [below, h, tree, List.filterMap_filter]
  refine List.filterMap_congr fun e _ => ?_
  by_cases hbelow : l <+: e.1 <;> simp [hbelow]

theorem below_eq_of_tree (h : s.locate path = .ok l) (h' : s'.locate path = .ok l)
    (htree : s'.tree l = s.tree l) : s'.below path = s.below path := by
  rw [below_eq_filterMap_tree h, below_eq_filterMap_tree h', htree]

/-! ## One file in a directory -/

/-- What can be opened at a path stands where it names. -/
theorem open?_eq_ok {n : Node} (h : s.open? path = .ok n) :
    s.locate path = .ok (target path) ∧ s.node? (target path) = some n := by
  unfold open? at h
  split at h
  · cases h
  next hlocate =>
    obtain rfl := eq_target_of_locate hlocate
    split at h
    · cases h
    next hnode => exact ⟨hlocate, by rw [hnode, Except.ok.inj h]⟩

variable {name : String} {c : Char} {cs : List Char} {bytes : List UInt8} {mode : Nat}

/-- Where the name of a single file leads, joined to a directory. -/
theorem target_join_of_isFileName (hname : name.toList = c :: cs) (hc : c ≠ '/') (hdot : c ≠ '.')
    (hfile : IsFileName name) (path : String) :
    target (Path.join path name) = target path ++ [name] ∧
      Path.parts (Path.join path name) = Path.parts path ++ [name] ∧ name ≠ "." ∧ name ≠ ".." := by
  have habsolute : Path.isAbsolute name = false := by simp [Path.isAbsolute, hname, hc]
  have hne : name ≠ "" := by rintro rfl; simp at hname
  have hone : name ≠ "." := by rintro rfl; simp [hdot.symm] at hname
  have htwo : name ≠ ".." := by rintro rfl; simp [hdot.symm] at hname
  have hparts := Path.parts_of_no_slash hfile.no_slash hne
  refine ⟨?_, ?_, hone, htwo⟩
  · rw [Path.target_join habsolute, hparts, List.foldl_cons, List.foldl_nil,
      Path.next_of_ne hone htwo]
  · rw [Path.parts_join habsolute, hparts]

/-- A directory that holds one file goes on holding it as long as it is found and its tree is
the same. -/
theorem HoldsOnly.of_tree (h : s.HoldsOnly path name bytes mode) (hname : name.toList = c :: cs)
    (hc : c ≠ '/') (hdot : c ≠ '.') (hfile : IsFileName name) (hne : target path ≠ [])
    (hlocate : s.locate path = .ok (target path)) (hlocate' : s'.locate path = .ok (target path))
    (htree : s'.tree (target path) = s.tree (target path))
    (hdirectory : s'.node? (target path) = some .directory) :
    s'.HoldsOnly path name bytes mode := by
  rcases target_join_of_isFileName hname hc hdot hfile path with ⟨htarget, hparts, hone, htwo⟩
  rcases open?_eq_ok h.opened with ⟨hfound, hnode⟩
  rw [htarget] at hfound hnode
  have hnode' : s'.node? (target path ++ [name]) = some (.file bytes mode) := by
    rw [node?_eq_of_tree hne htree (List.prefix_append _ _), hnode]
  -- The way to the file is the way to the directory, and one part more.
  have hwalk : s'.walk [] (Path.parts (Path.join path name)) = .ok (target path ++ [name]) := by
    have hlast : s'.walk (target path) [name] = .ok (target path ++ [name]) := by
      refine walk_cons_eq_ok_iff.2 ⟨hdirectory, ?_, .inr (.inr ⟨hfile.size, by simp [hnode']⟩)⟩
      rw [Path.next_of_ne hone htwo]
      rfl
    rw [hparts, walk_append, (walk_of_locate hlocate').2]
    exact hlast
  have hslash : Path.endsInSlash (Path.join path name) = false := by
    rw [Path.endsInSlash_join (by simp [Path.isAbsolute, hname, hc]) (by rintro rfl; simp at hname),
      hfile.endsInSlash]
  refine ⟨?_, (below_eq_of_tree hlocate hlocate' htree).trans h.alone⟩
  simp [open?, FileStore.locate, (walk_of_locate hfound).1, hwalk, hslash, hnode']

end

end TableFixture.FileStore
