import PackedRecord.Record.Value

/-! # Named values — what a record is to be filled with -/

namespace PackedRecord

/-- Values by field name.  Every operation keeps the names distinct. -/
structure Values where
  pairs : List (String × Value)
  deriving Repr

namespace Values

def empty : Values := ⟨[]⟩

def get? (values : Values) (name : String) : Option Value :=
  values.pairs.lookup name

/-- Without the value of the given name. -/
def erase (values : Values) (name : String) : Values :=
  ⟨values.pairs.filter (·.1 ≠ name)⟩

/-- With the given value under the given name, in place of the one before. -/
def insert (values : Values) (name : String) (value : Value) : Values :=
  ⟨(name, value) :: (values.erase name).pairs⟩

def size (values : Values) : Nat :=
  values.pairs.length

end Values

end PackedRecord
