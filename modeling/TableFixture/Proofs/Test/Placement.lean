import TableFixture.Proofs.Test.Hosting

/-!
# Where the directories of a test lie

The start of the names is joined to the root as it is, with an ending after it.  If it has no
slashes, the directories that are handed out are children of the root whose names start with it,
and nothing that the helpers of a test create, change or remove lies anywhere else.  If it has
one, no directory that is handed out is such a child: it can lie deeper, beside the root, or
anywhere.

Main results:

- Theorem `isChild_of_no_slash`, `IsChild.no_slash`: which names are those of children.
- Theorem `Hosted.confines`: what a test does stays below the root if the names have no slashes.
- Theorem `placed_runs`: where directories and fixture files lie.
- Theorem `escape_smallWorld`: a name that leads out of the root.
-/

namespace TableFixture.TestCase

open TableFixture.Path (target)

/-- A path leads to a child of the root, and its name there starts as given. -/
def IsChild (root leading path : String) : Prop :=
  ∃ name : String, leading.toList <+: name.toList ∧ target path = target root ++ [name]

/-- Whatever an action does in a scene, it does below the root. -/
structure Confines (root leading : String) (s : Scene TestCase) : Prop where
  directory : ∀ {path s'}, context.tempDir s = (.ok path, s') → IsChild root leading path
  file : ∀ {action file path s'}, action.effect = .create file →
    perform (.act action) s = (.answered (.file path), s') →
      ∃ directory, IsChild root leading directory ∧ path = Path.join directory file.name ∧
        target path = target directory ++ [file.name]
  outside : ∀ action l, ¬ target root <+: l →
    (perform (.act action) s).2.world.files.node? l = s.world.files.node? l

/-- Where a test that starts in a scene gets its directories, and writes its fixture files. -/
structure Placed (root leading : String) (start : Scene TestCase) : Prop where
  /-- The start of the names is joined to the root with an ending. -/
  joined : ∀ {before answers s path s'}, Reaches start before answers s →
    context.tempDir s = (.ok path, s') →
      ∃ ending, Path.IsEnding ending ∧ path = Path.join root (leading ++ ending)
  confined : '/' ∉ leading.toList → ∀ {before answers s}, Reaches start before answers s →
    Confines root leading s
  unconfined : '/' ∈ leading.toList → ∀ {before answers s path s'},
    Reaches start before answers s → context.tempDir s = (.ok path, s') →
      ¬ IsChild root leading path

/-! ## Children of the root -/

/-- A name without slashes is that of a child. -/
theorem isChild_of_no_slash {leading ending : String} (h : '/' ∉ leading.toList)
    (hending : Path.IsEnding ending) (root : String) :
    IsChild root leading (Path.join root (leading ++ ending)) := by
  have hrelative : Path.isAbsolute (leading ++ ending) = false := by
    rw [hending.isAbsolute_append, Path.isAbsolute, beq_eq_false_iff_ne]
    exact fun hhead => h (List.mem_of_head? hhead)
  have hno : '/' ∉ (leading ++ ending).toList := by simp [h, hending.no_slash]
  have hne : leading ++ ending ≠ "" := by
    intro hempty
    have hlength := hending.1
    simp_all
  refine ⟨leading ++ ending, by simp, ?_⟩
  rw [Path.target_join hrelative, Path.parts_of_no_slash hno hne, List.foldl_cons, List.foldl_nil,
    Path.next_of_ne (hending.append_ne leading).1 (hending.append_ne leading).2]

/-- The names of children have no slashes. -/
theorem IsChild.no_slash {root leading path : String} (h : IsChild root leading path) :
    '/' ∉ leading.toList := by
  rcases h with ⟨name, hname, htarget⟩
  have hpart : name ∈ Path.parts path := Path.mem_parts_of_mem_target (by simp [htarget])
  exact fun hslash => Path.no_slash_of_mem_parts hpart (hname.subset hslash)

theorem IsChild.prefix_target {root leading path : String} (h : IsChild root leading path) :
    target root <+: target path := by
  rcases h with ⟨name, -, htarget⟩
  exact htarget ▸ List.prefix_append _ _

/-! ## What stays below the root -/

section

variable {w₀ : World} {config : Config} {s s' : Scene TestCase} {root : String}

/-- Allocating changes nothing but the place of the directory that is allocated. -/
theorem node?_of_allocate {result : Except Error String} (hallocate : allocate s = (result, s'))
    {l : Location} (hl : ∀ path, result = .ok path → l ≠ target path) :
    s'.world.files.node? l = s.world.files.node? l := by
  cases result with
  | error e => rw [(allocate_eq_error hallocate).2.2]
  | ok path =>
      rcases allocate_eq_ok hallocate with ⟨-, -, -, -, hmake⟩
      rw [(FileStore.makeDirectory_eq_ok hmake).2]
      exact FileStore.node?_put_of_ne _ _ (hl path rfl)

/-- In a test case with a root the directories that are allocated have names without slashes
below it, if their start has none. -/
theorem Hosted.isChild (h : Hosted w₀ config s) (hroot : config.root = some root)
    (hendings : ∀ i, Path.IsEnding (w₀.endings i)) (hno : '/' ∉ config.leading.toList)
    {path : String} (hallocate : TestCase.allocate s = (.ok path, s')) :
    IsChild root config.leading path := by
  rcases h.ends hendings hallocate with ⟨ending, hending, rfl⟩
  rw [hroot]
  exact isChild_of_no_slash hno hending root

/-- What a test does stays below its root, if the names of its directories start without
slashes. -/
theorem Hosted.confines (h : Hosted w₀ config s) (hroot : config.root = some root)
    (hendings : ∀ i, Path.IsEnding (w₀.endings i)) (hno : '/' ∉ config.leading.toList) :
    Confines root config.leading s := by
  -- Whatever lies outside the root is not where a directory is allocated, nor below it.
  have hchild {path : String} {s' : Scene TestCase}
      (hallocate : TestCase.allocate s = (.ok path, s')) :=
    h.isChild hroot hendings hno hallocate
  have hallocated {result : Except Error String} {s' : Scene TestCase}
      (hallocate : TestCase.allocate s = (result, s')) {l : Location} (hl : ¬ target root <+: l) :
      s'.world.files.node? l = s.world.files.node? l := by
    refine node?_of_allocate hallocate ?_
    rintro path rfl rfl
    exact hl (hchild hallocate).prefix_target
  refine ⟨hchild, ?_, ?_⟩
  · intro action file path s' heffect hperform
    have hperforms := performs s (.act action)
    rw [hperform] at hperforms
    cases hperforms with
    | @created _ file' directory s₁ l heffect' hallocate hlocate hslash =>
        obtain rfl := Action.Effect.create.inj (heffect.symm.trans heffect')
        refine ⟨directory, hchild hallocate, rfl, ?_⟩
        rw [← FileStore.eq_target_of_locateNew hlocate]
        exact (location_of_created h.files.closed heffect hallocate hlocate hslash).2
  · intro action l hl
    -- Nor is it where a fixture file is put.
    have hput {file : FixtureFile} {directory : String} {s' : Scene TestCase} {location : Location}
        (heffect : action.effect = .create file)
        (hallocate : TestCase.allocate s = (.ok directory, s'))
        (hlocate : s'.world.files.locateNew (Path.join directory file.name) = .ok location)
        (hslash : Path.endsInSlash (Path.join directory file.name) = false) (node : Node) :
        (s'.world.files.put location node).node? l = s.world.files.node? l := by
      obtain rfl := (location_of_created h.files.closed heffect hallocate hlocate hslash).2
      have hne : l ≠ target directory ++ [file.name] := by
        rintro rfl
        exact hl ((hchild hallocate).prefix_target.trans (List.prefix_append _ _))
      exact (FileStore.node?_put_of_ne _ _ hne).trans (hallocated hallocate hl)
    have hperforms := performs s (.act action)
    generalize perform (.act action) s = result at hperforms
    cases hperforms with
    | allocated _ hallocate => exact hallocated hallocate hl
    | notAllocated _ hallocate => exact hallocated hallocate hl
    | notCreated _ hallocate _ => exact hallocated hallocate hl
    | notHoused _ hallocate => exact hallocated hallocate hl
    | created heffect hallocate hlocate hslash => exact hput heffect hallocate hlocate hslash _
    | unfinished heffect hallocate hlocate hslash _ =>
        exact hput heffect hallocate hlocate hslash _
    | recorded | aborted => rfl

end

/-- A test with a root gets its directories and writes its fixture files below it if the names of
the directories start without slashes; otherwise none of the directories is a child of the root
under such a name. -/
theorem placed_runs (name root leading : String) (keep : Bool) (w : World)
    (hclosed : w.files.Closed) (hendings : ∀ i, Path.IsEnding (w.endings i)) :
    Placed root leading ⟨w, withConfig name ⟨some root, leading, keep⟩⟩ where
  joined hreaches hallocate :=
    (hreaches.hosted (.start hclosed name _) hclosed hendings).ends hendings hallocate
  confined hno _ _ _ hreaches :=
    (hreaches.hosted (.start hclosed name _) hclosed hendings).confines rfl hendings hno
  unconfined hslash _ _ _ _ _ _ _ hchild := hchild.no_slash hslash

/-- A test whose directories have plain names stays below its root. -/
theorem confines_smallWorld :
    Confines "/tmp" "fixture_" ⟨smallWorld, withConfig "t" ⟨some "/tmp", "fixture_", false⟩⟩ ∧
      (context.tempDir ⟨smallWorld, withConfig "t" ⟨some "/tmp", "fixture_", false⟩⟩).1
        = .ok "/tmp/fixture_aaaaaa" :=
  ⟨(placed_runs "t" "/tmp" "fixture_" false smallWorld closed_smallWorld
    isEnding_smallWorld).confined (by decide) .start, by decide +kernel⟩

/-- Two dots lead out of the root, though that exists. -/
theorem escape_smallWorld :
    smallWorld.files.isDirectory "/tmp" = true ∧
      (context.tempDir ⟨smallWorld, withConfig "t" ⟨some "/tmp", "../esc_", false⟩⟩).1
        = .ok "/tmp/../esc_aaaaaa" ∧
      target "/tmp/../esc_aaaaaa" = ["esc_aaaaaa"] ∧
      ¬ target "/tmp" <+: target "/tmp/../esc_aaaaaa" ∧
      ¬ IsChild "/tmp" "../esc_" "/tmp/../esc_aaaaaa" :=
  ⟨by decide, by decide +kernel, by decide, by decide,
    fun hchild => hchild.no_slash (by decide)⟩

end TableFixture.TestCase
