import Mathlib.Data.List.Find
import TableFixture.Fixture
import TableFixture.Proofs.Frame.Growth

/-!
# Shapes in builders

A shape is given to a builder call by call: one for each of its columns, in order, and a last
one that finishes.  Whatever the builder does, it gets these calls up to the first one that it
refuses, and what it answered to the last of them is the outcome.

A builder of frames may hold columns already.  A shape whose columns have names of their own
and one length is put behind them, or stopped by the first conflict: its first name is taken,
else its length is another one, else the first of its other names that is taken.

Main results:

- Theorem `build_of_takes`, `build_of_refusal`: what a builder is called for, and what comes
  of it.
- Theorem `takes_or_refuses`: every building ends in one of these ways.
- Theorem `columns_build_frameBuilder`: a shape behind the columns of a frame, or its first
  conflict with them.
- Theorem `fixtures_in_builders`: the standard shapes in builders of frames, whatever these were
  offered before, and in any builder.
-/

namespace TableFixture

/-- The calls that a builder gets. -/
inductive BuilderCall where
  | column (column : NamedColumn)
  | finish
deriving DecidableEq, Repr

namespace ColumnSetBuilder

variable {σ τ : Type}

/-! ## The calls of a shape -/

/-- The builder that does the same and keeps the calls that it gets, the oldest first. -/
def traced (b : ColumnSetBuilder σ τ) : ColumnSetBuilder (σ × List BuilderCall) τ where
  column c s := ((b.column c s.1).1, (b.column c s.1).2, s.2 ++ [.column c])
  finish s := ((b.finish s.1).1, (b.finish s.1).2, s.2 ++ [.finish])

/-- The calls that a builder gets while a shape is given to it. -/
def callsOf (b : ColumnSetBuilder σ τ) (shape : List NamedColumn) (s : σ) : List BuilderCall :=
  (b.traced.build shape (s, [])).2.2

/-- A builder takes columns one after the other, which leads from one state to another. -/
inductive Takes (b : ColumnSetBuilder σ τ) : σ → List NamedColumn → σ → Prop where
  | nil (s : σ) : Takes b s [] s
  | cons {c : NamedColumn} {shape : List NamedColumn} {s s' s'' : σ} :
      b.column c s = (.ok (), s') → Takes b s' shape s'' → Takes b s (c :: shape) s''

section

variable {b : ColumnSetBuilder σ τ} {shape before after : List NamedColumn} {c : NamedColumn}
  {s s' s'' : σ} {e : Error}

theorem column_traced (b : ColumnSetBuilder σ τ) (c : NamedColumn) (s : σ)
    (calls : List BuilderCall) :
    b.traced.column c (s, calls) = ((b.column c s).1, (b.column c s).2, calls ++ [.column c]) :=
  rfl

/-- Keeping the calls changes nothing else. -/
theorem build_traced (b : ColumnSetBuilder σ τ) (shape : List NamedColumn) (s : σ)
    (calls : List BuilderCall) :
    b.build shape s
      = ((b.traced.build shape (s, calls)).1, (b.traced.build shape (s, calls)).2.1) := by
  induction shape generalizing s calls with
  | nil => rfl
  | cons c shape ih =>
      rcases hcolumn : b.column c s with ⟨e | ⟨⟩, s'⟩
      · rw [build_cons_error hcolumn, build_cons_error (by rw [column_traced, hcolumn])]
      · rw [build_cons_ok hcolumn, build_cons_ok (by rw [column_traced, hcolumn])]
        exact ih s' (calls ++ [.column c])

/-- Columns that are taken are followed by the rest of the shape. -/
theorem Takes.build_append (h : b.Takes s before s') (rest : List NamedColumn) :
    b.build (before ++ rest) s = b.build rest s' := by
  induction h with
  | nil => rfl
  | cons hcolumn _ ih => rw [List.cons_append, build_cons_ok hcolumn, ih]

/-- Columns that are taken are taken with their calls. -/
theorem Takes.traced (h : b.Takes s before s') (calls : List BuilderCall) :
    b.traced.Takes (s, calls) before (s', calls ++ before.map .column) := by
  induction h generalizing calls with
  | nil s => simpa using Takes.nil (b := b.traced) (s, calls)
  | @cons c shape s s' s'' hcolumn _ ih =>
      have hrest := ih (calls ++ [.column c])
      rw [List.append_assoc] at hrest
      exact .cons (by rw [column_traced, hcolumn]) hrest

/-- A shape that is taken is finished, after all of its calls. -/
theorem build_of_takes (h : b.Takes s shape s') :
    b.build shape s = b.finish s' ∧ b.callsOf shape s = shape.map .column ++ [.finish] := by
  constructor
  · have hbuild := h.build_append []
    rwa [List.append_nil, build_nil] at hbuild
  · have hbuild := (h.traced []).build_append []
    rw [List.append_nil, build_nil] at hbuild
    rw [callsOf, hbuild]
    rfl

/-- A refusal ends the building with the call that was refused, and is handed back unchanged. -/
theorem build_of_refusal (h : b.Takes s before s') (hcolumn : b.column c s' = (.error e, s''))
    (after : List NamedColumn) :
    b.build (before ++ c :: after) s = (.error e, s'') ∧
      b.callsOf (before ++ c :: after) s = (before ++ [c]).map .column := by
  constructor
  · rw [h.build_append, build_cons_error hcolumn]
  · rw [callsOf, (h.traced []).build_append,
      build_cons_error (by rw [column_traced, hcolumn]), List.map_append, List.nil_append]
    rfl

/-- A builder takes a shape as a whole, or up to the first column that it refuses. -/
theorem takes_or_refuses (b : ColumnSetBuilder σ τ) (shape : List NamedColumn) (s : σ) :
    (∃ s', b.Takes s shape s') ∨
      ∃ before c after s' e s'', shape = before ++ c :: after ∧ b.Takes s before s' ∧
        b.column c s' = (.error e, s'') := by
  induction shape generalizing s with
  | nil => exact .inl ⟨s, .nil s⟩
  | cons c shape ih =>
      rcases hcolumn : b.column c s with ⟨e | ⟨⟩, s'⟩
      · exact .inr ⟨[], c, shape, s, e, s', rfl, .nil s, hcolumn⟩
      · rcases ih s' with ⟨s'', h⟩ | ⟨before, d, after, s'', e, s₃, rfl, h, hrefused⟩
        · exact .inl ⟨s'', .cons hcolumn h⟩
        · exact .inr ⟨c :: before, d, after, s'', e, s₃, rfl, .cons hcolumn h, hrefused⟩

end

/-- How a shape is given to a builder in some state. -/
structure GivesCalls (b : ColumnSetBuilder σ τ) (shape : List NamedColumn) (s : σ) : Prop where
  /-- Keeping the calls changes nothing else. -/
  erased : b.build shape s
    = ((b.traced.build shape (s, [])).1, (b.traced.build shape (s, [])).2.1)
  /-- The calls are those of the shape, from the first one on. -/
  calls : b.callsOf shape s <+: shape.map .column ++ [.finish]
  /-- If all columns are taken, the last call is the one to finish, and its answer is the
  outcome. -/
  finished : ∀ s', b.Takes s shape s' →
    b.callsOf shape s = shape.map .column ++ [.finish] ∧ b.build shape s = b.finish s'
  /-- If a column is refused, that is the last call, and its error is the outcome. -/
  refused : ∀ before c after s' e s'', shape = before ++ c :: after → b.Takes s before s' →
    b.column c s' = (.error e, s'') →
      b.callsOf shape s = before.map .column ++ [.column c] ∧ b.build shape s = (.error e, s'')
  /-- A builder is told to finish only if it took all columns. -/
  finish_iff : .finish ∈ b.callsOf shape s ↔ ∃ s', b.Takes s shape s'
  /-- All columns are taken, or there is a first one that is refused. -/
  exhaustive : (∃ s', b.Takes s shape s') ∨
    ∃ before c after s' e s'', shape = before ++ c :: after ∧ b.Takes s before s' ∧
      b.column c s' = (.error e, s'')

theorem givesCalls (b : ColumnSetBuilder σ τ) (shape : List NamedColumn) (s : σ) :
    GivesCalls b shape s where
  erased := build_traced b shape s []
  calls := by
    rcases takes_or_refuses b shape s with
      ⟨s', h⟩ | ⟨before, c, after, s', e, s'', rfl, h, hrefused⟩
    · exact ⟨[], by rw [(build_of_takes h).2, List.append_nil]⟩
    · rw [(build_of_refusal h hrefused after).2]
      exact ⟨after.map .column ++ [.finish], by simp⟩
  finished s' h := (build_of_takes h).symm
  refused := by
    rintro before c after s' e s'' rfl h hrefused
    have hbuild := build_of_refusal h hrefused after
    exact ⟨by simpa using hbuild.2, hbuild.1⟩
  finish_iff := by
    constructor
    · intro hfinish
      rcases takes_or_refuses b shape s with
        htakes | ⟨before, c, after, s', e, s'', rfl, h, hrefused⟩
      · exact htakes
      · rw [(build_of_refusal h hrefused after).2] at hfinish
        simp at hfinish
    · rintro ⟨s', h⟩
      rw [(build_of_takes h).2]
      simp
  exhaustive := takes_or_refuses b shape s

end ColumnSetBuilder

namespace Frame

/-! ## Shapes behind the columns of a frame -/

section

variable {f g : Frame} {c : NamedColumn} {cs : List NamedColumn}

/-- What is wrong with a column that has a name. -/
theorem fault?_toColumn (f : Frame) (c : NamedColumn) :
    f.fault? c.toColumn
      = if c.name ∈ f.names then some (.duplicateColumnName c.name)
        else if f.columns ≠ [] ∧ f.rowCount ≠ c.length then
          some (.inconsistentRowCount f.rowCount c.length)
        else none :=
  rfl

/-- A column that a frame refuses ends the building. -/
theorem build_frameBuilder_of_fault {e : Error} (h : f.fault? c.toColumn = some e)
    (cs : List NamedColumn) : (frameBuilder.build (c :: cs) f).1 = .error e := by
  have hadd := (f.add_eq_error_iff c.toColumn e).2 h
  rw [ColumnSetBuilder.build_cons_error (by rw [column_frameBuilder, hadd])]

/-- A column that a frame accepts is stored at its end, and the building goes on. -/
theorem exists_build_frameBuilder_of_no_fault (h : f.fault? c.toColumn = none)
    (cs : List NamedColumn) :
    ∃ g, g.columns = f.columns ++ [c] ∧
      frameBuilder.build (c :: cs) f = frameBuilder.build cs g := by
  rcases exists_offer_of_no_fault h with ⟨g, -, hadd, -⟩
  rcases (f.add_eq_ok_iff g c.toColumn).1 hadd with ⟨-, name, hname, hcolumns⟩
  obtain rfl := Option.some.inj hname
  exact ⟨g, hcolumns, ColumnSetBuilder.build_cons_ok (by rw [column_frameBuilder, hadd]) cs⟩

theorem rowCount_of_columns_eq (h : g.columns = f.columns ++ [c]) : g.rowCount = c.length :=
  (g.length_of_mem_columns (by simp [h])).symm

/-- A column that was stored takes no name away from others that do not have its own. -/
theorem find?_taken_of_columns_eq (h : g.columns = f.columns ++ [c])
    (hname : c.name ∉ cs.map (·.name)) :
    cs.find? (·.name ∈ g.names) = cs.find? (·.name ∈ f.names) := by
  have hnames : g.names = f.names ++ [c.name] := by simp [names, h]
  refine List.find?_congr fun d hd => ?_
  have hother : d.name ≠ c.name := fun heq => hname (List.mem_map.2 ⟨d, hd, heq⟩)
  simp [hnames, hother]

/-- Behind columns of the same length only names that are taken are in the way. -/
theorem columns_build_frameBuilder_of_level (hne : f.columns ≠ [])
    (hlevel : ∀ d ∈ cs, d.length = f.rowCount) (hdistinct : (cs.map (·.name)).Nodup) :
    (frameBuilder.build cs f).1.map (·.columns)
      = match cs.find? (·.name ∈ f.names) with
        | some d => .error (.duplicateColumnName d.name)
        | none => .ok (f.columns ++ cs) := by
  induction cs generalizing f with
  | nil => simp [Except.map]
  | cons c cs ih =>
      rw [List.map_cons, List.nodup_cons] at hdistinct
      by_cases hname : c.name ∈ f.names
      · have hfault : f.fault? c.toColumn = some (.duplicateColumnName c.name) := by
          rw [fault?_toColumn, if_pos hname]
        rw [build_frameBuilder_of_fault hfault, List.find?_cons_of_pos (by simpa using hname)]
        rfl
      · have hfault : f.fault? c.toColumn = none := by
          have hlength := hlevel c List.mem_cons_self
          simp [fault?_toColumn, hname, hlength]
        rcases exists_build_frameBuilder_of_no_fault hfault cs with ⟨g, hcolumns, hbuild⟩
        have hlevel' : ∀ d ∈ cs, d.length = g.rowCount := by
          intro d hd
          rw [rowCount_of_columns_eq hcolumns, hlevel d (List.mem_cons_of_mem c hd),
            hlevel c List.mem_cons_self]
        rw [hbuild, ih (by simp [hcolumns]) hlevel' hdistinct.2,
          find?_taken_of_columns_eq hcolumns hdistinct.1, hcolumns,
          List.find?_cons_of_neg (by simpa using hname), List.append_assoc]
        rfl

/-- A shape is put behind the columns of a frame, or stopped by its first conflict with them:
its first name is taken, else it has another length, else another of its names is taken. -/
theorem columns_build_frameBuilder (f : Frame) (hdistinct : ((c :: cs).map (·.name)).Nodup)
    (hlevel : ∀ d ∈ cs, d.length = c.length) :
    (frameBuilder.build (c :: cs) f).1.map (·.columns)
      = if c.name ∈ f.names then .error (.duplicateColumnName c.name)
        else if f.columns ≠ [] ∧ f.rowCount ≠ c.length then
          .error (.inconsistentRowCount f.rowCount c.length)
        else
          match cs.find? (·.name ∈ f.names) with
          | some d => .error (.duplicateColumnName d.name)
          | none => .ok (f.columns ++ c :: cs) := by
  rw [List.map_cons, List.nodup_cons] at hdistinct
  have hfault := f.fault?_toColumn c
  by_cases hname : c.name ∈ f.names
  · rw [if_pos hname] at hfault ⊢
    rw [build_frameBuilder_of_fault hfault]
    rfl
  · rw [if_neg hname] at hfault ⊢
    by_cases hrows : f.columns ≠ [] ∧ f.rowCount ≠ c.length
    · rw [if_pos hrows] at hfault ⊢
      rw [build_frameBuilder_of_fault hfault]
      rfl
    · rw [if_neg hrows] at hfault ⊢
      rcases exists_build_frameBuilder_of_no_fault hfault cs with ⟨g, hcolumns, hbuild⟩
      have hlevel' : ∀ d ∈ cs, d.length = g.rowCount := by
        intro d hd
        rw [rowCount_of_columns_eq hcolumns, hlevel d hd]
      rw [hbuild, columns_build_frameBuilder_of_level (by simp [hcolumns]) hlevel' hdistinct.2,
        find?_taken_of_columns_eq hcolumns hdistinct.1, hcolumns, List.append_assoc]
      rfl

/-- A shape is put behind the columns of a frame exactly if none of its names is taken and there
are no columns or they have its length. -/
theorem exists_build_frameBuilder_iff (f : Frame) (hdistinct : ((c :: cs).map (·.name)).Nodup)
    (hlevel : ∀ d ∈ cs, d.length = c.length) :
    (∃ g, (frameBuilder.build (c :: cs) f).1 = .ok g ∧ g.columns = f.columns ++ c :: cs) ↔
      (∀ d ∈ c :: cs, d.name ∉ f.names) ∧ (f.columns = [] ∨ f.rowCount = c.length) := by
  have hbuild := columns_build_frameBuilder f hdistinct hlevel
  have hok : (∃ g, (frameBuilder.build (c :: cs) f).1 = .ok g ∧ g.columns = f.columns ++ c :: cs) ↔
      (frameBuilder.build (c :: cs) f).1.map (·.columns) = .ok (f.columns ++ c :: cs) := by
    cases (frameBuilder.build (c :: cs) f).1 with
    | error e => simp [Except.map]
    | ok g => simp [Except.map]
  rw [hok, hbuild, List.forall_mem_cons]
  by_cases hname : c.name ∈ f.names
  · simp [hname]
  · by_cases hrows : f.columns ≠ [] ∧ f.rowCount ≠ c.length
    · simp [hname, hrows]
    · have hfits : f.columns = [] ∨ f.rowCount = c.length := by
        by_contra hnot
        exact hrows (not_or.1 hnot)
      rw [if_neg hname, if_neg hrows]
      cases hfind : cs.find? (·.name ∈ f.names) with
      | none => simpa [hname, hfits] using hfind
      | some d =>
          have htaken : d.name ∈ f.names := by simpa using List.find?_some hfind
          have hmem := List.mem_of_find?_eq_some hfind
          simp only [reduceCtorEq, false_iff, not_and]
          exact fun hfree => absurd htaken (hfree.2 d hmem)

end

/-! ## Builders of frames that were called before -/

/-- The frame of a builder after calls, accepted and refused ones. -/
def builtBy (calls : List NamedColumn) : Frame := (runCalls frameBuilder.column calls empty).2

/-- The columns that a builder of frames accepted. -/
def acceptedBy (calls : List NamedColumn) : List NamedColumn :=
  succeeded calls (runCalls frameBuilder.column calls empty).1

theorem succeeded_map {α β : Type} (call : α → β) (calls : List α)
    (answers : List (Except Error Unit)) :
    succeeded (calls.map call) answers = (succeeded calls answers).map call := by
  induction calls generalizing answers with
  | nil => rfl
  | cons a calls ih =>
      cases answers with
      | nil => rfl
      | cons answer answers =>
          cases answer with
          | ok => exact congrArg (call a :: ·) (ih answers)
          | error => exact ih answers

/-- A builder of frames holds the columns that it accepted. -/
theorem columns_builtBy (calls : List NamedColumn) : (builtBy calls).columns = acceptedBy calls := by
  have hcalls := runCalls_frameBuilder calls
  have hinjective : Function.Injective NamedColumn.toColumn := by
    rintro ⟨name, cells⟩ ⟨name', cells'⟩ h
    simpa [NamedColumn.toColumn, Column.named] using h
  apply List.map_injective_iff.2 hinjective
  calc (builtBy calls).columns.map (·.toColumn)
      = stored (calls.map (·.toColumn)) := by
        rw [builtBy, hcalls]
        exact toColumns_grown _
    _ = accepted (calls.map (·.toColumn)) := (stored_eq_accepted _).1
    _ = (acceptedBy calls).map (·.toColumn) := by
        rw [accepted, succeeded_map, acceptedBy, hcalls]

/-- The columns of a frame are put behind those that were accepted exactly if none of their names
is taken and there were none or they are as long. -/
theorem exists_fixture_iff {fixture : Except Error Frame} {f : Frame} {c : NamedColumn}
    {cs : List NamedColumn} (hfixture : fixture = .ok f) (hcolumns : f.columns = c :: cs)
    (hdistinct : ((c :: cs).map (·.name)).Nodup) (hlevel : ∀ d ∈ cs, d.length = c.length)
    (calls : List NamedColumn) :
    (∃ f g, fixture = .ok f ∧ (frameBuilder.build (c :: cs) (builtBy calls)).1 = .ok g ∧
        g.columns = acceptedBy calls ++ f.columns) ↔
      (∀ name ∈ (c :: cs).map (·.name), name ∉ (acceptedBy calls).map (·.name)) ∧
        (acceptedBy calls = [] ∨ (builtBy calls).rowCount = c.length) := by
  have hiff := exists_build_frameBuilder_iff (builtBy calls) hdistinct hlevel
  rw [names, columns_builtBy] at hiff
  simp only [hfixture, Except.ok.injEq, exists_and_left, exists_eq_left', hcolumns, hiff,
    List.forall_mem_map]

/-- What becomes of the standard shapes in a builder of frames that was called before. -/
structure ExtendsToFixtures (calls : List NamedColumn) : Prop where
  /-- The builder holds the columns that it accepted. -/
  columns : (builtBy calls).columns = acceptedBy calls
  /-- The sales table is put behind them, or stopped by its first conflict with them. -/
  sales : (frameBuilder.build Fixture.salesShape (builtBy calls)).1.map (·.columns)
    = if "price" ∈ (acceptedBy calls).map (·.name) then .error (.duplicateColumnName "price")
      else if acceptedBy calls ≠ [] ∧ (builtBy calls).rowCount ≠ 5 then
        .error (.inconsistentRowCount (builtBy calls).rowCount 5)
      else if "quantity" ∈ (acceptedBy calls).map (·.name) then
        .error (.duplicateColumnName "quantity")
      else if "category" ∈ (acceptedBy calls).map (·.name) then
        .error (.duplicateColumnName "category")
      else .ok (acceptedBy calls ++ Fixture.salesShape)
  /-- It is put behind them if none of its names is taken and the rows are five. -/
  sales_iff : (∃ f g, Fixture.sales = .ok f ∧
      (frameBuilder.build Fixture.salesShape (builtBy calls)).1 = .ok g ∧
        g.columns = acceptedBy calls ++ f.columns) ↔
    (∀ name ∈ ["price", "quantity", "category"], name ∉ (acceptedBy calls).map (·.name)) ∧
      (acceptedBy calls = [] ∨ (builtBy calls).rowCount = 5)
  /-- The simple table is put behind them, or stopped by its first conflict with them. -/
  simple : (frameBuilder.build Fixture.simpleShape (builtBy calls)).1.map (·.columns)
    = if "a" ∈ (acceptedBy calls).map (·.name) then .error (.duplicateColumnName "a")
      else if acceptedBy calls ≠ [] ∧ (builtBy calls).rowCount ≠ 3 then
        .error (.inconsistentRowCount (builtBy calls).rowCount 3)
      else if "b" ∈ (acceptedBy calls).map (·.name) then .error (.duplicateColumnName "b")
      else .ok (acceptedBy calls ++ Fixture.simpleShape)
  /-- It is put behind them if none of its names is taken and the rows are three. -/
  simple_iff : (∃ f g, Fixture.simple = .ok f ∧
      (frameBuilder.build Fixture.simpleShape (builtBy calls)).1 = .ok g ∧
        g.columns = acceptedBy calls ++ f.columns) ↔
    (∀ name ∈ ["a", "b"], name ∉ (acceptedBy calls).map (·.name)) ∧
      (acceptedBy calls = [] ∨ (builtBy calls).rowCount = 3)

/-- The names in the sales table are distinct, and its columns have five rows. -/
theorem salesShape_level :
    (Fixture.salesShape.map (·.name)).Nodup ∧ ∀ c ∈ Fixture.salesShape, c.length = 5 := by
  simp [Fixture.salesShape, NamedColumn.length, Cells.length]

/-- The names in the simple table are distinct, and its columns have three rows. -/
theorem simpleShape_level :
    (Fixture.simpleShape.map (·.name)).Nodup ∧ ∀ c ∈ Fixture.simpleShape, c.length = 3 := by
  simp [Fixture.simpleShape, NamedColumn.length, Cells.length]

theorem exists_sales : ∃ f, Fixture.sales = .ok f ∧ f.columns = Fixture.salesShape := by
  have hshape := salesShape_level
  exact (exists_build_frameBuilder_iff .empty hshape.1 fun d hd =>
    hshape.2 d (List.mem_cons_of_mem _ hd)).2 ⟨by simp [names, empty], .inl rfl⟩

theorem exists_simple : ∃ f, Fixture.simple = .ok f ∧ f.columns = Fixture.simpleShape := by
  have hshape := simpleShape_level
  exact (exists_build_frameBuilder_iff .empty hshape.1 fun d hd =>
    hshape.2 d (List.mem_cons_of_mem _ hd)).2 ⟨by simp [names, empty], .inl rfl⟩

theorem extendsToFixtures (calls : List NamedColumn) : ExtendsToFixtures calls where
  columns := columns_builtBy calls
  sales := by
    have hshape := salesShape_level
    have hbuild := columns_build_frameBuilder (builtBy calls) hshape.1 fun d hd =>
      hshape.2 d (List.mem_cons_of_mem _ hd)
    rw [names, columns_builtBy] at hbuild
    refine hbuild.trans ?_
    by_cases hquantity : "quantity" ∈ (acceptedBy calls).map (·.name)
    · simp only [List.find?_cons, hquantity, decide_true, if_true]
      rfl
    · by_cases hcategory : "category" ∈ (acceptedBy calls).map (·.name)
      · simp only [List.find?_cons, hquantity, hcategory, decide_true, decide_false, if_true,
          if_false]
        rfl
      · simp only [List.find?_cons, List.find?_nil, hquantity, hcategory, decide_false, if_false]
        rfl
  sales_iff := by
    rcases exists_sales with ⟨f, hsales, hcolumns⟩
    have hshape := salesShape_level
    exact exists_fixture_iff hsales hcolumns hshape.1 (fun d hd =>
      hshape.2 d (List.mem_cons_of_mem _ hd)) calls
  simple := by
    have hshape := simpleShape_level
    have hbuild := columns_build_frameBuilder (builtBy calls) hshape.1 fun d hd =>
      hshape.2 d (List.mem_cons_of_mem _ hd)
    rw [names, columns_builtBy] at hbuild
    refine hbuild.trans ?_
    by_cases hb : "b" ∈ (acceptedBy calls).map (·.name)
    · simp only [List.find?_cons, hb, decide_true, if_true]
      rfl
    · simp only [List.find?_cons, List.find?_nil, hb, decide_false, if_false]
      rfl
  simple_iff := by
    rcases exists_simple with ⟨f, hsimple, hcolumns⟩
    have hshape := simpleShape_level
    exact exists_fixture_iff hsimple hcolumns hshape.1 (fun d hd =>
      hshape.2 d (List.mem_cons_of_mem _ hd)) calls

/-- The standard shapes in builders.  A builder of frames, whatever was offered to it before, puts
them behind the columns that it accepted, or stops at the first conflict; any builder gets their
calls up to the first one that it refuses. -/
theorem fixtures_in_builders :
    (∀ calls : List NamedColumn, ExtendsToFixtures calls) ∧
    ∀ {σ τ : Type} (b : ColumnSetBuilder σ τ) (s : σ),
      ColumnSetBuilder.GivesCalls b Fixture.salesShape s ∧
        ColumnSetBuilder.GivesCalls b Fixture.simpleShape s :=
  ⟨extendsToFixtures, fun b s => ⟨b.givesCalls _ s, b.givesCalls _ s⟩⟩

example : (frameBuilder.build Fixture.salesShape (builtBy [⟨"quantity", .int64 [1, 2]⟩])).1
    = .error (.inconsistentRowCount 2 5) := by
  rfl

end Frame

end TableFixture
