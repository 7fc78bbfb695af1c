import TableFixture.Frame.Builder

/-!
# Standard fixtures

Two small tables serve as common test data.  Each exists as CSV text and as a shape,
a list of named columns that any column-set builder can take.

Main definitions:

- `Fixture.salesText`, `Fixture.salesShape`: five rows of price, quantity and category.
- `Fixture.simpleText`, `Fixture.simpleShape`: three rows of two integers.
- `Fixture.sales`, `Fixture.simple`: the shapes as frames.
-/

namespace TableFixture.Fixture

/-- The release of the fixtures. -/
def release : String := "0.1.0-alpha.5"

/-! ## Sales -/

/-- The sales table as CSV text. -/
def salesText : String :=
  "price,quantity,category\n10.5,5,A\n20.0,15,B\n5.0,3,A\n30.0,20,C\n15.0,8,B\n"

/-- The number written as tenths. -/
def tenths (n : Nat) : Binary64 := Decimal.nearest false n (-1)

/-- The columns of the sales table. -/
def salesShape : List NamedColumn :=
  [⟨"price", .float64 [tenths 105, tenths 200, tenths 50, tenths 300, tenths 150]⟩,
    ⟨"quantity", .int64 [5, 15, 3, 20, 8]⟩,
    ⟨"category", .string ["A", "B", "A", "C", "B"]⟩]

/-- The sales table as a frame. -/
def sales : Except Error Frame := (frameBuilder.build salesShape .empty).1

/-! ## Simple integers -/

/-- The simple table as CSV text. -/
def simpleText : String := "a,b\n1,2\n3,4\n5,6\n"

/-- The columns of the simple table. -/
def simpleShape : List NamedColumn :=
  [⟨"a", .int64 [1, 3, 5]⟩, ⟨"b", .int64 [2, 4, 6]⟩]

/-- The simple table as a frame. -/
def simple : Except Error Frame := (frameBuilder.build simpleShape .empty).1

end TableFixture.Fixture
