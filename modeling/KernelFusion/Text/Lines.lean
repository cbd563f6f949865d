/-
Lines of text.

A text is a sequence of lines, each ended by a newline; the last newline may be missing. The empty
text has no line.
-/

namespace KernelFusion.Text

/-- The lines of a text, without their newlines. -/
def splitLines : List Char → List (List Char)
  | [] => []
  | c :: cs =>
    if c = '\n' then [] :: splitLines cs
    else
      match splitLines cs with
      | [] => [[c]]
      | l :: ls => (c :: l) :: ls

/-- The number of lines of a text. -/
def lineCount (text : String) : Nat := (splitLines text.toList).length

/-- Every line of a text with an indentation in front of it and a newline behind. -/
def indentLines (text indent : String) : String :=
  String.join <| (splitLines text.toList).map fun l => indent ++ String.ofList l ++ "\n"

/-- The text without its blanks. -/
def removeSpaces (text : String) : String :=
  String.ofList (text.toList.filter (· ≠ ' '))

end KernelFusion.Text
