import Mathlib.Data.List.Induction
import TableFixture.Frame

/-!
# Assembling frames

Columns with distinct names and equal numbers of rows make a frame, column by column.  The
first name that repeats an earlier one ends the assembly, whatever follows it.

Main results:

- Theorem `exists_ofColumns_eq_ok`: sound columns make the frame of exactly these columns.
- Theorem `ofColumns_eq_duplicate`: the first repeated name is the error.
- Theorem `exists_firstRepeat`: names that are not distinct have a first repeated one.
- Theorem `ofColumns_toColumn`: every frame is assembled from its own columns.
-/

namespace TableFixture

/-! ## Repeated names -/

/-- The first name of a list, in order, that repeats an earlier one. -/
def FirstRepeat (names : List String) (name : String) : Prop :=
  ∃ before after, names = before ++ name :: after ∧ before.Nodup ∧ name ∈ before

theorem exists_firstRepeat {names : List String} (h : ¬ names.Nodup) :
    ∃ name, FirstRepeat names name := by
  induction names using List.reverseRecOn with
  | nil => exact absurd List.nodup_nil h
  | append_singleton names name ih =>
      by_cases hnames : names.Nodup
      · refine ⟨name, names, [], rfl, hnames, ?_⟩
        by_contra hmem
        apply h
        rw [List.nodup_append]
        refine ⟨hnames, by simp, ?_⟩
        intro a ha b hb heq
        rw [List.mem_singleton] at hb
        exact hmem (hb ▸ heq ▸ ha)
      · rcases ih hnames with ⟨first, before, after, rfl, hbefore, hmem⟩
        exact ⟨first, before, after ++ [name], by simp, hbefore, hmem⟩

theorem not_nodup_of_firstRepeat {names : List String} {name : String}
    (h : FirstRepeat names name) : ¬ names.Nodup := by
  rcases h with ⟨before, after, rfl, -, hmem⟩
  intro hnodup
  exact (List.nodup_append.1 hnodup).2.2 name hmem name List.mem_cons_self rfl

namespace Frame

/-! ## Columns one after the other -/

theorem ext_columns {f g : Frame} (h : f.columns = g.columns) : f = g := by
  rcases f with ⟨columns, hdistinct, hlevel⟩
  rcases g with ⟨columns', hdistinct', hlevel'⟩
  cases h
  rfl

theorem ofColumns_append (cs ds : List Column) :
    ofColumns (cs ++ ds) = (ofColumns cs).bind fun f => ds.foldlM add f :=
  List.foldlM_append

theorem foldlM_add_cons (f : Frame) (c : Column) (cs : List Column) :
    (c :: cs).foldlM add f = (f.add c).bind fun g => cs.foldlM add g :=
  List.foldlM_cons

/-- Columns with distinct names and equal numbers of rows make the frame of exactly these
columns. -/
theorem exists_ofColumns_eq_ok {cs : List NamedColumn} (hdistinct : (cs.map (·.name)).Nodup)
    (hlevel : ∀ c ∈ cs, ∀ d ∈ cs, c.length = d.length) :
    ∃ f, ofColumns (cs.map (·.toColumn)) = .ok f ∧ f.columns = cs := by
  induction cs using List.reverseRecOn with
  | nil => exact ⟨empty, rfl, rfl⟩
  | append_singleton cs c ih =>
      rw [List.map_append, List.nodup_append] at hdistinct
      rcases hdistinct with ⟨hcs, -, hnew⟩
      rcases ih hcs (fun d hd e he => hlevel d (by simp [hd]) e (by simp [he])) with ⟨f, hf, rfl⟩
      have hfault : f.fault? c.toColumn = none := by
        have hname : c.name ∉ f.names := by
          intro hmem
          exact hnew c.name hmem c.name (by simp) rfl
        have hrows : ¬ (f.columns ≠ [] ∧ f.rowCount ≠ c.toColumn.length) := by
          rintro ⟨hne, hrows⟩
          rcases List.exists_mem_of_ne_nil _ hne with ⟨d, hd⟩
          apply hrows
          rw [← f.length_of_mem_columns hd]
          exact hlevel d (by simp [hd]) c (by simp)
        simp only [fault?, NamedColumn.toColumn, Column.named]
        rw [if_neg hname]
        exact if_neg hrows
      cases hadd : f.add c.toColumn with
      | error e =>
          have hsome := (add_eq_error_iff f c.toColumn e).1 hadd
          rw [hfault] at hsome
          exact absurd hsome (by simp)
      | ok g =>
          refine ⟨g, ?_, ?_⟩
          · rw [List.map_append, ofColumns_append, hf]
            exact (foldlM_add_cons f c.toColumn []).trans (by rw [hadd]; rfl)
          · rcases (add_eq_ok_iff f g c.toColumn).1 hadd with ⟨-, name, hname, hg⟩
            rcases Option.some.inj hname with rfl
            exact hg

/-- The first name that repeats an earlier one ends the assembly, if the columns have equal
numbers of rows. -/
theorem ofColumns_eq_duplicate {cs : List NamedColumn} {name : String}
    (h : FirstRepeat (cs.map (·.name)) name)
    (hlevel : ∀ c ∈ cs, ∀ d ∈ cs, c.length = d.length) :
    ofColumns (cs.map (·.toColumn)) = .error (.duplicateColumnName name) := by
  rcases h with ⟨before, after, hsplit, hbefore, hmem⟩
  rcases List.map_eq_append_iff.1 hsplit with ⟨front, back, rfl, rfl, hback⟩
  rcases List.map_eq_cons_iff.1 hback with ⟨c, rest, rfl, rfl, -⟩
  rcases exists_ofColumns_eq_ok hbefore
    (fun d hd e he => hlevel d (by simp [hd]) e (by simp [he])) with ⟨f, hf, rfl⟩
  have hadd : f.add c.toColumn = .error (.duplicateColumnName c.name) := by
    rw [add_eq_error_iff]
    simp only [fault?, NamedColumn.toColumn, Column.named]
    exact if_pos hmem
  rw [List.map_append, ofColumns_append, hf]
  exact (foldlM_add_cons f c.toColumn _).trans (by rw [hadd]; rfl)

/-- Every frame is assembled from its own columns. -/
theorem ofColumns_toColumn (f : Frame) : ofColumns (f.columns.map (·.toColumn)) = .ok f := by
  rcases exists_ofColumns_eq_ok f.distinct f.level with ⟨g, hg, hcolumns⟩
  rw [hg, ext_columns hcolumns]

end Frame

end TableFixture
