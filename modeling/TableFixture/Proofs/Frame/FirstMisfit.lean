import Mathlib.Data.Nat.Find
import Mathlib.Order.Bounds.Defs
import TableFixture.Proofs.Frame.Growth

/-!
# The first column that does not fit

A list of columns is assembled into a frame as long as every column fits those before it.  The
first that does not, in the order of the list, decides the error: that it has no name, else that
its name is taken, else that it has another length than the first column.  What follows it is
never looked at.

Main results:

- Theorem `misfit_length_iff`: a column is out of place exactly if it cannot follow those before
  it.
- Theorem `exists_ofColumns_of_no_misfit`: columns that all fit are assembled as they are.
- Theorem `misfitError_of_fault`: what a frame finds wrong with a column that is out of place.
- Theorem `ofColumns_or_firstMisfit`: how the assembly of any list of columns ends.
-/

namespace TableFixture.Frame

/-! ## Columns out of place -/

/-- The column in a place of a list has no name, or the name of an earlier column, or another
length than the first column. -/
def Misfit (cs : List Column) (i : Nat) : Prop :=
  ∃ c, cs[i]? = some c ∧
    (c.name = none ∨ (∃ j < i, ∃ d, cs[j]? = some d ∧ d.name = c.name) ∨
      ∃ first, cs[0]? = some first ∧ c.length ≠ first.length)

/-- The error of the column in a place of a list. -/
inductive MisfitError (cs : List Column) (i : Nat) : Error → Prop where
  /-- It has no name. -/
  | unnamed {c : Column} : cs[i]? = some c → c.name = none → MisfitError cs i .unnamedColumn
  /-- It has the name of an earlier column. -/
  | duplicate {c d : Column} {j : Nat} {name : String} : cs[i]? = some c → c.name = some name →
      j < i → cs[j]? = some d → d.name = some name → MisfitError cs i (.duplicateColumnName name)
  /-- It has a name of its own, but another length than the first column. -/
  | length {c first : Column} {name : String} : cs[i]? = some c → c.name = some name →
      (∀ j < i, ∀ d, cs[j]? = some d → d.name ≠ some name) → cs[0]? = some first →
      c.length ≠ first.length → MisfitError cs i (.inconsistentRowCount first.length c.length)

section

variable {before after : List Column} {c d : Column} {e : Error} {i : Nat} {f : Frame}

/-- An element of a beginning stands in the same place of the whole list. -/
theorem getElem?_append_of_some (h : before[i]? = some c) : (before ++ after)[i]? = some c := by
  rwa [List.getElem?_append_left (List.getElem?_eq_some_iff.1 h).1]

/-- The elements before a place are those of the list up to it. -/
theorem exists_getElem?_append_iff (p : Column → Prop) :
    (∃ j < before.length, ∃ d, (before ++ after)[j]? = some d ∧ p d) ↔ ∃ d ∈ before, p d := by
  constructor
  · rintro ⟨j, hj, d, hd, hp⟩
    rw [List.getElem?_append_left hj] at hd
    exact ⟨d, List.mem_of_getElem? hd, hp⟩
  · rintro ⟨d, hd, hp⟩
    rcases List.getElem?_of_mem hd with ⟨j, hj⟩
    exact ⟨j, (List.getElem?_eq_some_iff.1 hj).1, d, getElem?_append_of_some hj, hp⟩

/-- What follows a column is not looked at. -/
theorem Misfit.append (h : Misfit before i) (after : List Column) : Misfit (before ++ after) i := by
  rcases h with ⟨c, hc, hname | ⟨j, hj, d, hd, hname⟩ | ⟨first, hfirst, hlength⟩⟩
  · exact ⟨c, getElem?_append_of_some hc, .inl hname⟩
  · exact ⟨c, getElem?_append_of_some hc,
      .inr (.inl ⟨j, hj, d, getElem?_append_of_some hd, hname⟩)⟩
  · exact ⟨c, getElem?_append_of_some hc,
      .inr (.inr ⟨first, getElem?_append_of_some hfirst, hlength⟩)⟩

/-- The first column of a list, seen from a place in it. -/
theorem getElem?_zero_append_cons {first : Column} :
    (before ++ c :: after)[0]? = some first ↔
      before.head? = some first ∨ before = [] ∧ c = first := by
  cases before <;> simp

/-- A column is out of place exactly if it cannot follow those before it. -/
theorem misfit_length_iff (before after : List Column) (c : Column) :
    Misfit (before ++ c :: after) before.length ↔ ¬ Fits before c := by
  have hplace : (before ++ c :: after)[before.length]? = some c := by simp
  constructor
  · rintro ⟨c', hc', hmisfit⟩ hfits
    rw [hplace] at hc'
    rcases Option.some.inj hc' with rfl
    rcases hmisfit with hname | hearlier | ⟨first, hfirst, hlength⟩
    · rcases hfits.named with ⟨name, hnamed⟩
      rw [hnamed] at hname
      cases hname
    · rcases (exists_getElem?_append_iff _).1 hearlier with ⟨d, hd, hname⟩
      exact hfits.fresh d hd hname
    · rcases getElem?_zero_append_cons.1 hfirst with hhead | ⟨-, rfl⟩
      · exact hlength (hfits.level first hhead).symm
      · exact hlength rfl
  · intro hfits
    by_contra hplaced
    apply hfits
    refine ⟨Option.ne_none_iff_exists'.1 fun hname => ?_, fun d hd hname => ?_, fun first hfirst => ?_⟩
    · exact hplaced ⟨c, hplace, .inl hname⟩
    · exact hplaced ⟨c, hplace, .inr (.inl ((exists_getElem?_append_iff _).2 ⟨d, hd, hname⟩))⟩
    · by_contra hlength
      exact hplaced ⟨c, hplace, .inr (.inr ⟨first, getElem?_zero_append_cons.2 (.inl hfirst),
        fun heq => hlength heq.symm⟩)⟩

/-- What a frame finds wrong with a column is the error of that column behind its own. -/
theorem misfitError_of_fault (hfault : f.fault? c = some e) (after : List Column) :
    MisfitError (f.toColumns ++ c :: after) f.toColumns.length e := by
  have hplace : (f.toColumns ++ c :: after)[f.toColumns.length]? = some c := by simp
  unfold fault? at hfault
  cases hname : c.name with
  | none =>
      rw [hname] at hfault
      rcases Option.some.inj hfault with rfl
      exact .unnamed hplace hname
  | some name =>
      simp only [hname] at hfault
      by_cases hmem : name ∈ f.names
      · rw [if_pos hmem] at hfault
        rcases Option.some.inj hfault with rfl
        have hearlier : ∃ d ∈ f.toColumns, d.name = some name := by
          by_contra hnone
          exact (f.forall_name_ne_iff name).1 (fun d hd heq => hnone ⟨d, hd, heq⟩) hmem
        rcases (exists_getElem?_append_iff _).2 hearlier with ⟨j, hj, d, hd, hown⟩
        exact .duplicate hplace hname hj hd hown
      · rw [if_neg hmem] at hfault
        split at hfault
        next hrows =>
          rcases Option.some.inj hfault with rfl
          rcases List.exists_cons_of_ne_nil hrows.1 with ⟨first, rest, hcolumns⟩
          have hfirst : f.toColumns.head? = some first.toColumn := by
            rw [toColumns, hcolumns]
            rfl
          have hcount := (length_head?_toColumns hfirst).2
          rw [← hcount]
          refine .length hplace hname ?_ (getElem?_zero_append_cons.2 (.inl hfirst)) ?_
          · intro j hj d hd
            rw [List.getElem?_append_left hj] at hd
            exact (f.forall_name_ne_iff name).2 hmem d (List.mem_of_getElem? hd)
          · rw [hcount]
            exact fun heq => hrows.2 heq.symm
        next => cases hfault

/-! ## Assembly -/

/-- Columns that all fit are assembled as they are. -/
theorem exists_ofColumns_of_no_misfit {cs : List Column} (h : ∀ i, ¬ Misfit cs i) :
    ∃ f, ofColumns cs = .ok f ∧ f.toColumns = cs := by
  induction cs using List.reverseRecOn with
  | nil => exact ⟨empty, rfl, rfl⟩
  | append_singleton cs c ih =>
      rcases ih fun i hi => h i (hi.append [c]) with ⟨f, hf, rfl⟩
      have hfits : Fits f.toColumns c := by
        by_contra hnot
        exact h _ ((misfit_length_iff f.toColumns [] c).2 hnot)
      rcases exists_offer_of_no_fault ((f.fault?_eq_none_iff c).2 hfits) with ⟨g, -, hadd, hg⟩
      refine ⟨g, ?_, hg⟩
      rw [ofColumns_append, hf]
      exact (foldlM_add_cons f c []).trans (by rw [hadd]; rfl)

/-- A list with a column out of place has a first one. -/
theorem exists_firstMisfit {cs : List Column} (h : ∃ i, Misfit cs i) :
    ∃ before c after, cs = before ++ c :: after ∧ Misfit cs before.length ∧
      ∀ i < before.length, ¬ Misfit cs i := by
  classical
  obtain ⟨i, hi, hfirst⟩ : ∃ i, Misfit cs i ∧ ∀ j < i, ¬ Misfit cs j :=
    ⟨Nat.find h, Nat.find_spec h, fun j => Nat.find_min h⟩
  have hlt : i < cs.length := by
    rcases hi with ⟨c, hc, -⟩
    exact (List.getElem?_eq_some_iff.1 hc).1
  have hlength : (cs.take i).length = i := List.length_take_of_le (Nat.le_of_lt hlt)
  refine ⟨cs.take i, cs[i], cs.drop (i + 1), ?_, ?_, ?_⟩
  · rw [← List.drop_eq_getElem_cons hlt, List.take_append_drop]
  · rwa [hlength]
  · rwa [hlength]

/-- A column that a frame refuses ends the assembly, whatever follows. -/
theorem ofColumns_of_fault {cs : List Column} (hf : ofColumns cs = .ok f)
    (hfault : f.fault? c = some e) (after : List Column) :
    ofColumns (cs ++ c :: after) = .error e := by
  rw [ofColumns_append, hf]
  exact (foldlM_add_cons f c after).trans (by rw [(add_eq_error_iff f c e).2 hfault]; rfl)

end

/-- How the assembly of a list of columns ends.  Either every column fits, and the frame has
exactly these columns in their order; or the first that does not fit decides the error, whatever
follows it. -/
theorem ofColumns_or_firstMisfit (cs : List Column) :
    (∃ f, ofColumns cs = .ok f ∧ f.toColumns = cs ∧ ∀ i, ¬ Misfit cs i) ∨
    ∃ i e, IsLeast {i | Misfit cs i} i ∧ MisfitError cs i e ∧ ofColumns cs = .error e ∧
      ∀ after, ofColumns (cs.take (i + 1) ++ after) = .error e := by
  by_cases h : ∃ i, Misfit cs i
  · right
    rcases exists_firstMisfit h with ⟨before, c, after, rfl, hmisfit, hbefore⟩
    have hnone : ∀ i, ¬ Misfit before i := by
      intro i hi
      have hlt : i < before.length := by
        rcases hi with ⟨d, hd, -⟩
        exact (List.getElem?_eq_some_iff.1 hd).1
      exact hbefore i hlt (hi.append _)
    rcases exists_ofColumns_of_no_misfit hnone with ⟨f, hf, rfl⟩
    cases hfault : f.fault? c with
    | none =>
        rw [misfit_length_iff, ← fault?_eq_none_iff] at hmisfit
        exact absurd hfault hmisfit
    | some e =>
        have hleast : IsLeast {i | Misfit (f.toColumns ++ c :: after) i} f.toColumns.length :=
          ⟨hmisfit, fun i hi => Nat.le_of_not_lt fun hlt => hbefore i hlt hi⟩
        refine ⟨f.toColumns.length, e, hleast, misfitError_of_fault hfault after,
          ofColumns_of_fault hf hfault after, fun after' => ?_⟩
        have htake : (f.toColumns ++ c :: after).take (f.toColumns.length + 1) ++ after'
            = f.toColumns ++ c :: after' := by
          rw [List.take_length_add_append, List.append_assoc]
          rfl
        rw [htake]
        exact ofColumns_of_fault hf hfault after'
  · left
    have hnone : ∀ i, ¬ Misfit cs i := fun i hi => h ⟨i, hi⟩
    rcases exists_ofColumns_of_no_misfit hnone with ⟨f, hf, hcolumns⟩
    exact ⟨f, hf, hcolumns, hnone⟩

end TableFixture.Frame
