import PackedRecord.Layout.Finding

/-! # Layouts — the fields of one record

    A layout lists entries and section comments in table order.  Its width is
    the sum of the entries' lengths and owes nothing to declared offsets. -/

namespace PackedRecord

/-- A line of a layout. -/
inductive Layout.Item
  | entry (e : Layout.Entry)
  | comment (line : Nat) (text : String)
  deriving DecidableEq, Repr

/-- The entry of an item that is one. -/
def Layout.Item.entry? : Layout.Item → Option Layout.Entry
  | .entry e => some e
  | .comment .. => none

/-- The text of an item that comments. -/
def Layout.Item.comment? : Layout.Item → Option String
  | .entry _ => none
  | .comment _ text => some text

/-- All fields of one record, in table order, between section comments. -/
structure Layout where
  items : List Layout.Item
  deriving DecidableEq, Repr

namespace Layout

/-- The bytes of a list of entries. -/
def bytesOfEntries : List Entry → Nat
  | [] => 0
  | e :: rest => e.size + bytesOfEntries rest

theorem bytesOfEntries_cons (e : Entry) (rest : List Entry) :
    bytesOfEntries (e :: rest) = e.size + bytesOfEntries rest := rfl

/-- Entries behind entries add their bytes. -/
theorem bytesOfEntries_append (entries entries' : List Entry) :
    bytesOfEntries (entries ++ entries') = bytesOfEntries entries + bytesOfEntries entries' := by
  induction entries with
  | nil => exact (Nat.zero_add _).symm
  | cons e rest ih =>
      rw [List.cons_append, bytesOfEntries_cons, ih, bytesOfEntries_cons, Nat.add_assoc]

def entries (layout : Layout) : List Entry :=
  layout.items.filterMap Item.entry?

def comments (layout : Layout) : List String :=
  layout.items.filterMap Item.comment?

def width (layout : Layout) : Nat :=
  bytesOfEntries layout.entries

/-- The first entry of the given name. -/
def get? (layout : Layout) (name : String) : Option Entry :=
  layout.entries.find? (·.name = name)

/-- What its declared offsets give reason to report, in table order. -/
def findings (layout : Layout) : List Finding :=
  findingsFrom 0 none layout.entries

end Layout

end PackedRecord
