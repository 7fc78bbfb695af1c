import TableFixture.Frame
import TableFixture.Json.Text

/-!
# Frames as JSON rows

A frame is written as one object for each row.  An object is built by setting one member
after the other, column by column; its members are kept in the order of their names, and a
member that is set again is overwritten.

Main results:

- Theorem `length_toRecords`: there is an object for each row.
- Theorem `perm_rowMembers`: an object has exactly one member for each column.
-/

namespace TableFixture

namespace Json

/-- The members of an object after one was set: in the place of the member of its name,
else in its place in the order of the names. -/
def setMember (m : String × Scalar) : Members → Members
  | [] => [m]
  | n :: ns =>
    if m.1 < n.1 then m :: n :: ns
    else if m.1 = n.1 then m :: ns
    else n :: setMember m ns

/-- The object of which the given members are set one after the other. -/
def objectOf (members : List (String × Scalar)) : Members :=
  members.foldl (fun object m => setMember m object) []

/-- A member with a name of its own is added. -/
theorem perm_setMember {m : String × Scalar} {object : Members}
    (h : m.1 ∉ object.map (·.1)) : (setMember m object).Perm (m :: object) := by
  induction object with
  | nil => exact .refl _
  | cons n ns ih =>
    rw [List.map_cons, List.mem_cons, not_or] at h
    unfold setMember
    split
    · exact .refl _
    · rw [if_neg h.1]
      exact ((ih h.2).cons n).trans (.swap m n ns)

/-- Members with names of their own are all added. -/
theorem perm_foldl_setMember {members : List (String × Scalar)} {object : Members}
    (h : (object.map (·.1) ++ members.map (·.1)).Nodup) :
    (members.foldl (fun object m => setMember m object) object).Perm (object ++ members) := by
  induction members generalizing object with
  | nil => rw [List.append_nil]; exact .refl _
  | cons m ms ih =>
    rw [List.map_cons, List.perm_middle.nodup_iff, List.nodup_cons] at h
    have hnew : m.1 ∉ object.map (·.1) := fun hmem => h.1 (List.mem_append_left _ hmem)
    have hset := perm_setMember hnew
    have hnames : ((setMember m object).map (·.1) ++ ms.map (·.1)).Nodup := by
      have hperm := (hset.map (·.1)).append_right (ms.map (·.1))
      rw [hperm.nodup_iff, List.map_cons, List.cons_append, List.nodup_cons]
      exact h
    exact (ih hnames).trans ((hset.append_right ms).trans List.perm_middle.symm)

/-- An object has all members that were set, if their names are distinct. -/
theorem perm_objectOf {members : List (String × Scalar)} (h : (members.map (·.1)).Nodup) :
    (objectOf members).Perm members :=
  perm_foldl_setMember h

end Json

namespace Frame

/-- The value of a column in a row; `null` where the column has no cell. -/
def scalarAt (c : NamedColumn) (row : Nat) : Json.Scalar :=
  ((c.cells.cell? row).map Json.Scalar.ofCell).getD .null

/-- The object of a row, set column by column. -/
def rowMembers (f : Frame) (row : Nat) : Json.Members :=
  Json.objectOf (f.columns.map fun c => (c.name, scalarAt c row))

/-- The frame as one object for each row. -/
def toRecords (f : Frame) : List Json.Members := (List.range f.rowCount).map f.rowMembers

/-- The frame as JSON text. -/
def toJson (f : Frame) : String := String.ofList (Json.writeArray f.toRecords)

/-- There is an object for each row. -/
@[simp] theorem length_toRecords (f : Frame) : f.toRecords.length = f.rowCount := by
  simp [toRecords]

/-- An object has exactly one member for each column. -/
theorem perm_rowMembers (f : Frame) (row : Nat) :
    (f.rowMembers row).Perm (f.columns.map fun c => (c.name, scalarAt c row)) := by
  apply Json.perm_objectOf
  rw [List.map_map]
  exact f.distinct

end Frame

end TableFixture
