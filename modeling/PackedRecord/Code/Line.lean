import PackedRecord.Text.Blank

/-! # Lines of generated code — statements and remarks

    What a line says to the compiler and what it says to a reader are kept
    apart: remarks follow a comment marker and nothing follows them. -/

namespace PackedRecord.Code

/-- One line, with its depth of indentation. -/
inductive Line
  | blank
  | code (depth : Nat) (text : String)
  | note (depth : Nat) (remark : String)
  /-- Documentation of the item on the next line. -/
  | doc (depth : Nat) (remark : String)
  /-- Code with a comment behind it. -/
  | noted (depth : Nat) (text : String) (remark : String)
  deriving DecidableEq, Repr

namespace Line

/-- The line without what ends it; every level of depth is `indent` spaces. -/
def content (indent : Nat) : Line → String
  | blank => ""
  | code depth text => Text.spaces (indent * depth) ++ text
  | note depth remark => Text.spaces (indent * depth) ++ "// " ++ remark
  | doc depth remark => Text.spaces (indent * depth) ++ "/// " ++ remark
  | noted depth text remark => Text.spaces (indent * depth) ++ text ++ " // " ++ remark

/-- The line with the line feed that ends it. -/
def text (indent : Nat) (line : Line) : String :=
  line.content indent ++ "\n"

end Line

end PackedRecord.Code
