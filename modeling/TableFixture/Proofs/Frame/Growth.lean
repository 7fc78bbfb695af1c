import Mathlib.Data.List.Nodup
import TableFixture.Frame.Builder
import TableFixture.Proofs.Frame.Assembly

/-!
# Growing frames

A frame grows call by call: each call offers it a column, which is stored at the end or
refused.  The same calls can be made in place, on a bare list of columns that promises
nothing, or to the builder of frames; both answer as the frame does and store the same
columns.  So whatever was offered and refused, a list of columns that was grown in place is
sound, and it is the frame of the accepted columns alone.

Main results:

- Theorem `run_addInPlace_eq_offer`: adding in place answers as a frame does, and changes
  nothing when it refuses.
- Theorem `runCalls_of_step`: calls that agree one by one agree in sequence.
- Theorem `stored_eq_accepted`: what is stored is what was accepted.
- Theorem `valuesOf_eq`: exactly one type can be asked of a column.
- Theorem `nextCall`: what one more call does.
- Theorem `growth_of_calls`: any sequence of calls makes the frame of the accepted columns.
-/

namespace TableFixture

/-! ## Sequences of calls -/

section Calls

variable {α β σ τ : Type}

/-- The answers to calls that are made one after the other, and the state after them. -/
def runCalls (step : α → σ → Except Error Unit × σ) : List α → σ → List (Except Error Unit) × σ
  | [], s => ([], s)
  | a :: calls, s =>
    let rest := runCalls step calls (step a s).2
    ((step a s).1 :: rest.1, rest.2)

/-- The calls of a sequence that were answered with success. -/
def succeeded : List α → List (Except Error Unit) → List α
  | a :: calls, .ok () :: answers => a :: succeeded calls answers
  | _ :: calls, .error _ :: answers => succeeded calls answers
  | _, _ => []

theorem runCalls_concat (step : α → σ → Except Error Unit × σ) (calls : List α) (a : α) (s : σ) :
    runCalls step (calls ++ [a]) s
      = ((runCalls step calls s).1 ++ [(step a (runCalls step calls s).2).1],
        (step a (runCalls step calls s).2).2) := by
  induction calls generalizing s with
  | nil => rfl
  | cons b calls ih => rw [List.cons_append, runCalls, ih]; rfl

theorem length_runCalls (step : α → σ → Except Error Unit × σ) (calls : List α) (s : σ) :
    (runCalls step calls s).1.length = calls.length := by
  induction calls generalizing s with
  | nil => rfl
  | cons a calls ih => rw [runCalls, List.length_cons, ih, List.length_cons]

/-- A call that succeeds is the last one that did, and one that fails is none of them. -/
theorem succeeded_concat {calls : List α} {answers : List (Except Error Unit)}
    (h : answers.length = calls.length) (a : α) (answer : Except Error Unit) :
    succeeded (calls ++ [a]) (answers ++ [answer])
      = succeeded calls answers ++ succeeded [a] [answer] := by
  induction calls generalizing answers with
  | nil =>
      obtain rfl := List.length_eq_zero_iff.1 h
      rfl
  | cons b calls ih =>
      cases answers with
      | nil => cases h
      | cons first answers =>
          have hrest := ih (Nat.succ.inj h)
          cases first with
          | ok => exact congrArg (b :: ·) hrest
          | error => exact hrest

/-- Calls that agree one by one agree in sequence. -/
theorem runCalls_of_step (step : α → σ → Except Error Unit × σ)
    (step' : β → τ → Except Error Unit × τ) (call : α → β) (view : σ → τ)
    (h : ∀ a s, step' (call a) (view s) = ((step a s).1, view (step a s).2))
    (calls : List α) (s : σ) :
    runCalls step' (calls.map call) (view s)
      = ((runCalls step calls s).1, view (runCalls step calls s).2) := by
  induction calls generalizing s with
  | nil => rfl
  | cons a calls ih => rw [List.map_cons, runCalls, h, ih]; rfl

end Calls

namespace Frame

/-! ## One call -/

/-- Offers a column to a frame: the answer, and the frame then. -/
def offer (f : Frame) (c : Column) : Except Error Unit × Frame :=
  match f.add c with
  | .ok g => (.ok (), g)
  | .error e => (.error e, f)

/-- Adds a column in place to a bare list of columns, one check after the other. -/
def addInPlace (c : Column) : ExceptT Error (StateM (List Column)) Unit := do
  let some name := c.name | throw .unnamedColumn
  let columns ← get
  if columns.any fun d => d.name == some name then
    throw (.duplicateColumnName name)
  if let some first := columns.head? then
    if first.length ≠ c.length then
      throw (.inconsistentRowCount first.length c.length)
  modify (· ++ [c])

/-- The columns of a frame as columns that happen to have names. -/
def toColumns (f : Frame) : List Column := f.columns.map (·.toColumn)

/-- A column can follow others: it has a name, none of them has that name, and it is as long
as the first of them, if there is one. -/
structure Fits (columns : List Column) (c : Column) : Prop where
  named : ∃ name, c.name = some name
  fresh : ∀ d ∈ columns, d.name ≠ c.name
  level : ∀ first, columns.head? = some first → first.length = c.length

/-- To look at the columns is to go on with them. -/
theorem run_get_bind (next : List Column → ExceptT Error (StateM (List Column)) Unit)
    (columns : List Column) :
    (get >>= next).run.run columns = (next columns).run.run columns :=
  rfl

theorem run_addInPlace_of_unnamed {c : Column} (hname : c.name = none) (columns : List Column) :
    (addInPlace c).run.run columns = (.error .unnamedColumn, columns) := by
  unfold addInPlace
  rw [hname]
  rfl

theorem run_addInPlace_of_named {c : Column} {name : String} (hname : c.name = some name)
    (columns : List Column) :
    (addInPlace c).run.run columns
      = if columns.any fun d => d.name == some name then
          (.error (.duplicateColumnName name), columns)
        else
          match columns.head? with
          | none => (.ok (), columns ++ [c])
          | some first =>
            if first.length ≠ c.length then
              (.error (.inconsistentRowCount first.length c.length), columns)
            else (.ok (), columns ++ [c]) := by
  unfold addInPlace
  simp only [hname]
  rw [run_get_bind]
  split
  · rfl
  · cases columns.head? with
    | none => rfl
    | some first =>
        dsimp only
        split <;> rfl

section

variable {f g : Frame} {c : Column} {e : Error} {name : String}

/-- A name is free exactly if no column has it. -/
theorem forall_name_ne_iff (f : Frame) (name : String) :
    (∀ d ∈ f.toColumns, d.name ≠ some name) ↔ name ∉ f.names := by
  simp [toColumns, names, NamedColumn.toColumn, Column.named]

theorem any_toColumns (f : Frame) (name : String) :
    (f.toColumns.any fun d => d.name == some name) = decide (name ∈ f.names) := by
  rw [Bool.eq_iff_iff, decide_eq_true_eq, ← not_iff_not, ← forall_name_ne_iff]
  simp

/-- The number of rows is the length of the first column. -/
theorem length_head?_toColumns {first : Column} (h : f.toColumns.head? = some first) :
    f.columns ≠ [] ∧ first.length = f.rowCount := by
  rw [toColumns, List.head?_map] at h
  rcases Option.map_eq_some_iff.1 h with ⟨d, hd, rfl⟩
  have hmem : d ∈ f.columns := List.mem_of_head? hd
  exact ⟨List.ne_nil_of_mem hmem, f.length_of_mem_columns hmem⟩

/-- A refused column leaves the frame as it was. -/
theorem offer_of_fault (h : f.fault? c = some e) : f.offer c = (.error e, f) := by
  rw [offer, (f.add_eq_error_iff c e).2 h]

/-- A column without a fault is accepted, and stored as it is at the end. -/
theorem exists_offer_of_no_fault (h : f.fault? c = none) :
    ∃ g, f.offer c = (.ok (), g) ∧ f.add c = .ok g ∧ g.toColumns = f.toColumns ++ [c] := by
  cases hadd : f.add c with
  | error e =>
      rw [(f.add_eq_error_iff c e).1 hadd] at h
      cases h
  | ok g =>
      rcases (f.add_eq_ok_iff g c).1 hadd with ⟨-, name, hname, hcolumns⟩
      have hc : NamedColumn.toColumn ⟨name, c.cells⟩ = c := by
        rw [NamedColumn.toColumn, Column.named, ← hname]
      refine ⟨g, by rw [offer, hadd], rfl, ?_⟩
      rw [toColumns, hcolumns, List.map_append, List.map_singleton, hc, toColumns]

/-- Adding in place to the columns of a frame finds the fault that the frame finds, and
changes nothing then. -/
theorem run_addInPlace (c : Column) (f : Frame) :
    (addInPlace c).run.run f.toColumns
      = match f.fault? c with
        | some e => (.error e, f.toColumns)
        | none => (.ok (), f.toColumns ++ [c]) := by
  unfold fault?
  cases hname : c.name with
  | none => rw [run_addInPlace_of_unnamed hname]
  | some name =>
      rw [run_addInPlace_of_named hname, any_toColumns]
      by_cases hmem : name ∈ f.names
      · simp [hmem]
      · cases hhead : f.toColumns.head? with
        | none =>
            have hnil : f.columns = [] := by simpa [toColumns] using hhead
            simp [hmem, hnil]
        | some first =>
            rcases length_head?_toColumns hhead with ⟨hne, hlength⟩
            by_cases hrows : f.rowCount = c.length
            · simp [hmem, hlength, hrows]
            · simp [hmem, hne, hlength, hrows]

/-- Adding in place answers as the frame does, and stores what the frame stores. -/
theorem run_addInPlace_eq_offer (c : Column) (f : Frame) :
    (addInPlace c).run.run f.toColumns = ((f.offer c).1, (f.offer c).2.toColumns) := by
  rw [run_addInPlace]
  cases hfault : f.fault? c with
  | some e => rw [offer_of_fault hfault]
  | none =>
      rcases exists_offer_of_no_fault hfault with ⟨g, hoffer, -, hcolumns⟩
      rw [hoffer, hcolumns]

/-- A frame finds no fault exactly with the columns that can follow its own. -/
theorem fault?_eq_none_iff (f : Frame) (c : Column) : f.fault? c = none ↔ Fits f.toColumns c := by
  have hlevel : (∀ first, f.toColumns.head? = some first → first.length = c.length) ↔
      (f.columns = [] ∨ f.rowCount = c.length) := by
    cases hhead : f.toColumns.head? with
    | none =>
        have hnil : f.columns = [] := by simpa [toColumns] using hhead
        simp [hnil]
    | some first =>
        rcases length_head?_toColumns hhead with ⟨hne, hlength⟩
        simp [hne, hlength]
  have hfault : f.fault? c = none ↔
      ∃ name, c.name = some name ∧ name ∉ f.names ∧ (f.columns = [] ∨ f.rowCount = c.length) := by
    unfold fault?
    cases c.name with
    | none => simp
    | some name =>
        by_cases hmem : name ∈ f.names
        · simp [hmem]
        · by_cases hnil : f.columns = [] <;> simp [hmem, hnil]
  rw [hfault, ← hlevel]
  constructor
  · rintro ⟨name, hname, hmem, hfirst⟩
    refine ⟨⟨name, hname⟩, ?_, hfirst⟩
    rw [hname]
    exact (forall_name_ne_iff f name).2 hmem
  · rintro ⟨⟨name, hname⟩, hfresh, hfirst⟩
    rw [hname] at hfresh
    exact ⟨name, hname, (forall_name_ne_iff f name).1 hfresh, hfirst⟩

end

/-! ## Looking up columns -/

/-- The cells of the column of a name, if they have the type asked for. -/
def valuesOf (f : Frame) (type : ColumnType) (name : String) : Except Error Cells :=
  match type with
  | .int64 => (f.int64Values name).map .int64
  | .float64 => (f.float64Values name).map .float64
  | .string => (f.stringValues name).map .string

/-- What is asked of a column depends on its own type alone. -/
theorem valuesOf_eq (f : Frame) (type : ColumnType) (name : String) :
    f.valuesOf type name
      = match f.column? name with
        | none => .error (.columnNotFound name)
        | some c =>
          if c.cells.type = type then .ok c.cells
          else .error (.columnTypeMismatch name type c.cells.type) := by
  unfold valuesOf int64Values float64Values stringValues require
  cases f.column? name with
  | none => cases type <;> rfl
  | some c =>
      obtain ⟨_, cells⟩ := c
      cases type <;> cases cells <;> rfl

/-- A column at the end changes nothing for other names. -/
theorem column?_of_columns_eq {f g : Frame} {c : NamedColumn} {name : String}
    (hcolumns : g.columns = f.columns ++ [c]) (hname : c.name ≠ name) :
    g.column? name = f.column? name := by
  rw [column?, hcolumns, List.find?_append, List.find?_cons_of_neg (by simpa using hname),
    List.find?_nil, Option.or_none, column?]

/-- Looking up the name of a column finds that column. -/
theorem column?_of_getElem?_names {f : Frame} {i : Nat} {name : String}
    (h : f.names[i]? = some name) : f.column? name = f.columns[i]? := by
  rw [names, List.getElem?_map] at h
  rcases Option.map_eq_some_iff.1 h with ⟨c, hc, hname⟩
  rw [hc]
  exact (f.column?_eq_some_iff name c).2 ⟨List.mem_of_getElem? hc, hname⟩

theorem column?_eq_none_iff (f : Frame) (name : String) :
    f.column? name = none ↔ name ∉ f.names := by
  simp [column?, names]

/-- Every name leads to its column, and of that to the cells of its type alone. -/
structure Lookups (f : Frame) : Prop where
  count : f.names.length = f.columnCount
  position : ∀ (i : Nat) (name : String), f.names[i]? = some name → f.column? name = f.columns[i]?
  present : ∀ name ∈ f.names, ∃ c, f.column? name = some c ∧
    f.valuesOf c.cells.type name = .ok c.cells ∧
    ∀ type, type ≠ c.cells.type →
      f.valuesOf type name = .error (.columnTypeMismatch name type c.cells.type)
  absent : ∀ name, name ∉ f.names → f.column? name = none ∧
    ∀ type, f.valuesOf type name = .error (.columnNotFound name)

theorem lookups (f : Frame) : Lookups f where
  count := by rw [names, List.length_map, columnCount]
  position _ _ := column?_of_getElem?_names
  present := by
    intro name hname
    cases hcolumn : f.column? name with
    | none => exact absurd hname ((f.column?_eq_none_iff name).1 hcolumn)
    | some c =>
        refine ⟨c, rfl, ?_, fun type htype => ?_⟩
        · simp [valuesOf_eq, hcolumn]
        · simp [valuesOf_eq, hcolumn, htype.symm]
  absent := by
    intro name hname
    have hcolumn := (f.column?_eq_none_iff name).2 hname
    exact ⟨hcolumn, fun type => by rw [valuesOf_eq, hcolumn]⟩

/-- A bare list of the columns of a frame has the names of the frame, and finds its columns. -/
theorem find?_toColumns (f : Frame) :
    f.toColumns.filterMap (·.name) = f.names ∧
      ∀ name, (f.toColumns.find? fun c => c.name == some name)
        = (f.column? name).map (·.toColumn) := by
  constructor
  · simp [toColumns, names, NamedColumn.toColumn, Column.named, List.filterMap_map]
  · intro name
    rw [toColumns, List.find?_map, column?]
    rfl

/-! ## Sequences of columns -/

/-- One call in place: the answer, and the columns then. -/
def callInPlace (c : Column) (columns : List Column) : Except Error Unit × List Column :=
  (addInPlace c).run.run columns

/-- The answers to columns that are added in place, one after the other, to none. -/
def answers (calls : List Column) : List (Except Error Unit) := (runCalls callInPlace calls []).1

/-- The columns that are there after adding columns in place, one after the other, to none. -/
def stored (calls : List Column) : List Column := (runCalls callInPlace calls []).2

/-- The columns whose calls succeeded. -/
def accepted (calls : List Column) : List Column := succeeded calls (answers calls)

/-- The frame that is there after offering columns, one after the other, to the empty one. -/
def grown (calls : List Column) : Frame := (runCalls (fun c f => f.offer c) calls empty).2

/-- Columns as a frame has them: all have names, no two of them the same, and all are equally
long. -/
structure Sound (columns : List Column) : Prop where
  named : ∀ c ∈ columns, c.name.isSome = true
  distinct : (columns.map (·.name)).Nodup
  level : ∀ c ∈ columns, ∀ d ∈ columns, c.length = d.length

/-- The columns of a frame are sound. -/
theorem sound_toColumns (f : Frame) : Sound f.toColumns where
  named := by simp [toColumns, NamedColumn.toColumn, Column.named]
  distinct := by
    have hnames : f.toColumns.map (·.name) = f.names.map some := by
      simp [toColumns, names, NamedColumn.toColumn, Column.named]
    rw [hnames]
    exact List.Nodup.map (fun _ _ => Option.some.inj) f.distinct
  level := by
    intro c hc d hd
    rcases List.mem_map.1 hc with ⟨c', hc', rfl⟩
    rcases List.mem_map.1 hd with ⟨d', hd', rfl⟩
    exact f.level c' hc' d' hd'

/-- In place and as a frame the same calls are answered alike and store the same columns. -/
theorem runCalls_callInPlace (calls : List Column) (f : Frame) :
    runCalls callInPlace calls f.toColumns
      = ((runCalls (fun c f => f.offer c) calls f).1,
        (runCalls (fun c f => f.offer c) calls f).2.toColumns) := by
  have hcalls := runCalls_of_step (fun c (f : Frame) => f.offer c) callInPlace id toColumns
    run_addInPlace_eq_offer calls f
  rwa [List.map_id] at hcalls

theorem toColumns_grown (calls : List Column) : (grown calls).toColumns = stored calls := by
  have hcalls := runCalls_callInPlace calls empty
  exact (congrArg Prod.snd hcalls).symm

theorem answers_eq (calls : List Column) :
    answers calls = (runCalls (fun c f => f.offer c) calls empty).1 :=
  congrArg Prod.fst (runCalls_callInPlace calls empty)

theorem answers_concat (calls : List Column) (c : Column) :
    answers (calls ++ [c]) = answers calls ++ [(callInPlace c (stored calls)).1] := by
  rw [answers, runCalls_concat]
  rfl

theorem stored_concat (calls : List Column) (c : Column) :
    stored (calls ++ [c]) = (callInPlace c (stored calls)).2 := by
  rw [stored, runCalls_concat]
  rfl

theorem grown_concat (calls : List Column) (c : Column) :
    grown (calls ++ [c]) = ((grown calls).offer c).2 := by
  rw [grown, runCalls_concat]
  rfl

theorem accepted_concat (calls : List Column) (c : Column) :
    accepted (calls ++ [c])
      = accepted calls ++ succeeded [c] [(callInPlace c (stored calls)).1] := by
  have hlength : (answers calls).length = calls.length := length_runCalls callInPlace calls []
  rw [accepted, answers_concat, succeeded_concat hlength, accepted]

/-- One more call: a column that fits is stored, and any other changes nothing. -/
theorem callInPlace_stored (calls : List Column) (c : Column) :
    (Fits (stored calls) c ∧ callInPlace c (stored calls) = (.ok (), stored calls ++ [c]) ∧
      (grown calls).add c = .ok (grown (calls ++ [c]))) ∨
    (¬ Fits (stored calls) c ∧ grown (calls ++ [c]) = grown calls ∧
      ∃ e, callInPlace c (stored calls) = (.error e, stored calls) ∧
        (grown calls).add c = .error e) := by
  have hrun := run_addInPlace c (grown calls)
  rw [grown_concat, ← toColumns_grown, ← fault?_eq_none_iff]
  cases hfault : (grown calls).fault? c with
  | some e =>
      rw [hfault] at hrun
      exact .inr ⟨by simp, by rw [offer_of_fault hfault], e, hrun,
        (add_eq_error_iff _ c e).2 hfault⟩
  | none =>
      rw [hfault] at hrun
      rcases exists_offer_of_no_fault hfault with ⟨g, hoffer, hadd, -⟩
      exact .inl ⟨rfl, hrun, by rw [hoffer, hadd]⟩

/-- What one more call does: it answers as the frame does, and with success exactly to a column
that can follow those that were accepted.  Such a column is stored at the end, without a change
for other names; a refused one changes nothing. -/
structure NextCall (calls : List Column) (c : Column) : Prop where
  answers : (callInPlace c (stored calls)).1 = ((grown calls).add c).map fun _ => ()
  accepts : (callInPlace c (stored calls)).1 = .ok () ↔ Fits (accepted calls) c
  stores : (callInPlace c (stored calls)).1 = .ok () →
    stored (calls ++ [c]) = stored calls ++ [c] ∧
    ∀ name, c.name ≠ some name →
      (grown (calls ++ [c])).column? name = (grown calls).column? name ∧
      ∀ type, (grown (calls ++ [c])).valuesOf type name = (grown calls).valuesOf type name
  refuses : ∀ e, (callInPlace c (stored calls)).1 = .error e →
    stored (calls ++ [c]) = stored calls ∧ grown (calls ++ [c]) = grown calls

/-- What is stored is what was accepted, and the frame of it is the frame that has grown. -/
theorem stored_eq_accepted (calls : List Column) :
    stored calls = accepted calls ∧ ofColumns (accepted calls) = .ok (grown calls) := by
  induction calls using List.reverseRecOn with
  | nil => exact ⟨rfl, rfl⟩
  | append_singleton calls c ih =>
      rcases ih with ⟨hstored, hframe⟩
      rw [stored_concat, accepted_concat]
      rcases callInPlace_stored calls c with ⟨-, hcall, hadd⟩ | ⟨-, hgrown, e, hcall, -⟩
      · rw [hcall, hstored]
        have hlast : succeeded [c] [.ok ()] = [c] := rfl
        refine ⟨rfl, ?_⟩
        rw [hlast, ofColumns_append, hframe]
        exact (foldlM_add_cons (grown calls) c []).trans (by rw [hadd]; rfl)
      · have hlast : succeeded [c] [.error e] = [] := rfl
        rw [hcall, hgrown, hstored, hlast, List.append_nil]
        exact ⟨rfl, hframe⟩

theorem nextCall (calls : List Column) (c : Column) : NextCall calls c := by
  have hstored := (stored_eq_accepted calls).1
  rcases callInPlace_stored calls c with ⟨hfits, hcall, hadd⟩ | ⟨hfits, hgrown, e, hcall, hadd⟩
  · constructor
    · rw [hcall, hadd]
      rfl
    · rw [hcall, ← hstored]
      exact ⟨fun _ => hfits, fun _ => rfl⟩
    · intro _
      refine ⟨by rw [stored_concat, hcall], fun name hname => ?_⟩
      rcases (add_eq_ok_iff _ _ _).1 hadd with ⟨-, own, hown, hlast⟩
      have hother : own ≠ name := fun heq => hname (heq ▸ hown)
      have hcolumn := column?_of_columns_eq hlast hother
      exact ⟨hcolumn, fun type => by rw [valuesOf_eq, valuesOf_eq, hcolumn]⟩
    · intro e he
      rw [hcall] at he
      cases he
  · constructor
    · rw [hcall, hadd]
      rfl
    · rw [hcall, ← hstored]
      exact ⟨fun h => (by cases h), fun h => absurd h hfits⟩
    · intro h
      rw [hcall] at h
      cases h
    · intro _ _
      exact ⟨by rw [stored_concat, hcall], hgrown⟩

/-- The builder of frames answers as adding in place does. -/
theorem runCalls_frameBuilder (columns : List NamedColumn) :
    runCalls frameBuilder.column columns empty
      = (answers (columns.map (·.toColumn)), grown (columns.map (·.toColumn))) := by
  have hcalls := runCalls_of_step frameBuilder.column (fun c f => f.offer c) (·.toColumn) id
    (fun _ _ => rfl) columns empty
  rw [answers_eq, grown]
  exact Prod.ext (congrArg Prod.fst hcalls).symm (congrArg Prod.snd hcalls).symm

/-- Any sequence of calls makes the frame of the accepted columns.  What is stored in place is
sound, it is what was accepted, and it is a frame; one more call stores a column that fits and
changes nothing otherwise.  Every name of the frame leads to its column, and the builder of
frames answers and stores the same. -/
theorem growth_of_calls (calls : List Column) :
    Sound (stored calls) ∧ stored calls = accepted calls ∧
    ofColumns (accepted calls) = .ok (grown calls) ∧ (grown calls).toColumns = stored calls ∧
    (∀ c, NextCall calls c) ∧ Lookups (grown calls) ∧
    (stored calls).filterMap (·.name) = (grown calls).names ∧
    (∀ name, ((stored calls).find? fun c => c.name == some name)
      = ((grown calls).column? name).map (·.toColumn)) ∧
    ∀ columns : List NamedColumn, calls = columns.map (·.toColumn) →
      runCalls frameBuilder.column columns empty = (answers calls, grown calls) := by
  rcases stored_eq_accepted calls with ⟨hstored, hframe⟩
  have hcolumns := toColumns_grown calls
  have hfind := find?_toColumns (grown calls)
  rw [hcolumns] at hfind
  refine ⟨hcolumns ▸ sound_toColumns (grown calls), hstored, hframe, hcolumns, nextCall calls,
    lookups (grown calls), hfind.1, hfind.2, ?_⟩
  rintro columns rfl
  exact runCalls_frameBuilder columns

end Frame

end TableFixture
