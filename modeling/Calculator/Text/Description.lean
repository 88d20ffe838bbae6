/-!
# Descriptions

A description is the shape of a value as text: a word, a record of named fields,
or a name wrapped around another description.  It can be laid out on one line or
with one element a line, and both layouts show the same names and words.
-/

namespace Calculator

/-- The shape in which a value is shown. -/
inductive Description where
  | word (text : String)
  | record (name : String) (fields : List (String × String))
  | wrapped (name : String) (content : Description)

namespace Description

/-! ## On one line -/

/-- A field is its name, a colon and its word. -/
def field (entry : String × String) : String :=
  entry.1 ++ ": " ++ entry.2

/-- The layout on one line. -/
def inline : Description → String
  | word text => text
  | record name fields =>
      name ++ " \x7b " ++ String.intercalate ", " (fields.map field) ++ " \x7d"
  | wrapped name content => name ++ "(" ++ content.inline ++ ")"

/-! ## One element a line -/

/-- The blanks in front of a line at a given level: four for each level. -/
def margin (level : Nat) : String :=
  String.ofList (List.replicate (4 * level) ' ')

/-- An element on a line of its own, closed by a comma. -/
def element (level : Nat) (text : String) : String :=
  margin level ++ text ++ ",\n"

/-- The layout with one element a line, for a description that starts at the
given level.  The first line has no margin, as something may precede it. -/
def indentedAt (level : Nat) : Description → String
  | word text => text
  | record name fields =>
      name ++ " \x7b\n" ++
        String.join (fields.map fun entry => element (level + 1) (field entry)) ++
        margin level ++ "\x7d"
  | wrapped name content =>
      name ++ "(\n" ++ element (level + 1) (content.indentedAt (level + 1)) ++ margin level ++ ")"

/-- The layout with one element a line. -/
def indented (description : Description) : String :=
  description.indentedAt 0

end Description

end Calculator
