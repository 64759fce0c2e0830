/-!
# Descriptions of records

The text that describes a value by its named fields, on one line or indented over several.

A record in one line is `Name { first: 1, second: 2 }`.  Indented, each field has a line of its own
that ends in a comma, four columns further in than the record.  A wrapped value is `Name(value)`,
and indented it has a line of its own too.
-/

namespace BlockTable

mutual

/-- The description of a value. -/
inductive Outline where
  /-- A value that is written as it is. -/
  | leaf (text : String)
  /-- A value inside a named wrapper. -/
  | wrapped (name : String) (value : Outline)
  /-- Named fields. -/
  | record (name : String) (fields : Outline.Fields)

/-- The fields of a record, in order. -/
inductive Outline.Fields where
  /-- No further field. -/
  | nil
  /-- A field and the ones behind it. -/
  | cons (label : String) (value : Outline) (rest : Outline.Fields)

end

namespace Outline

/-- An optional value: `None`, or the value wrapped in `Some`. -/
def option : Option Outline → Outline
  | none => .leaf "None"
  | some value => .wrapped "Some" value

/-- A number. -/
def nat (n : Nat) : Outline := .leaf (toString n)

/-- The fields of a list of labelled values. -/
def Fields.ofList : List (String × Outline) → Fields
  | [] => .nil
  | (label, value) :: rest => .cons label value (ofList rest)

mutual

/-- The description on one line. -/
def line : Outline → String
  | .leaf text => text
  | .wrapped name value => name ++ "(" ++ value.line ++ ")"
  | .record name .nil => name
  | .record name (.cons label value rest) =>
      name ++ " \x7b " ++ label ++ ": " ++ value.line ++ rest.line ++ " \x7d"

/-- Further fields on the line of their record. -/
def Fields.line : Fields → String
  | .nil => ""
  | .cons label value rest => ", " ++ label ++ ": " ++ value.line ++ rest.line

end

/-- The start of a line `depth` levels in. -/
def indent (depth : Nat) : String := String.ofList (List.replicate (4 * depth) ' ')

mutual

/-- The description over several lines.  Its first line stands `depth` levels in. -/
def block (depth : Nat) : Outline → String
  | .leaf text => text
  | .wrapped name value =>
      name ++ "(\n" ++ indent (depth + 1) ++ value.block (depth + 1) ++ ",\n" ++ indent depth ++ ")"
  | .record name .nil => name
  | .record name (.cons label value rest) =>
      name ++ " \x7b\n" ++ indent (depth + 1) ++ label ++ ": " ++ value.block (depth + 1) ++
        ",\n" ++ rest.block (depth + 1) ++ indent depth ++ "\x7d"

/-- Further fields, each on a line of its own `depth` levels in. -/
def Fields.block (depth : Nat) : Fields → String
  | .nil => ""
  | .cons label value rest =>
      indent depth ++ label ++ ": " ++ value.block depth ++ ",\n" ++ rest.block depth

end

end Outline

end BlockTable
