/-
Merging lines.

A line whose value is used in one place only, or costs next to nothing, is written into the lines
that use it. A line takes over the arguments of what has been written into it, and looks at them in
turn. Lines that have been written into others are dropped, and the rest are renamed in order.
-/
import KernelFusion.Emit.Line
import KernelFusion.Text.Words

namespace KernelFusion

/-- Merged lines have less than this many characters in their expressions together. -/
def maxLineLength : Nat := 100

/-- What merging knows of the lines before it starts. -/
structure LineIndex where
  place? : String → Option Nat
  inputs : String → List String
  users : String → Nat

/-- The place of the last line of a name. -/
def lastPlace? (lines : List Line) (name : String) : Option Nat :=
  (lines.zipIdx.reverse.find? fun (l, _) => l.name = name).map (·.2)

/-- Line index of a list of lines. A name stands for the last line that has it. -/
def LineIndex.ofLines (lines : List Line) : LineIndex where
  place? := lastPlace? lines
  inputs := fun name => (((lastPlace? lines name).bind (lines[·]?)).map (·.arguments)).getD []
  users := fun name => (lines.flatMap (·.arguments)).count name

/-- The state of merging. -/
structure Merging where
  lines : List Line
  pending : List String := []
  dropped : List Nat := []

/-- Is a line written into another one of the given length, by its cost or its single use? -/
def isMerged (index : LineIndex) (size : Nat) (target : Line) (other : Line) : Bool :=
  let short := other.expression.utf8ByteSize + size < maxLineLength && index.users other.name = 1
  let free := other.cost.below 1
  (short || free) && (Text.countWord other.name target.expression < 2 || free)

/-- The expression of a line where it is used. -/
def Line.asOperand (l : Line) : String :=
  if l.parenthesised then "(" ++ l.expression ++ ")" else l.expression

/-- Gives the line at a place a further argument, and the cost of the line it stands for. -/
def takeOver (index : LineIndex) (i : Nat) (lines : List Line) (arg : String) : List Line :=
  let cost := (((index.place? arg).bind (lines[·]?)).map (·.cost)).getD .zero
  lines.modify i fun l => { l with arguments := l.arguments ++ [arg], cost := l.cost + cost }

/-- Writes the line of one argument into the line at a place, if it is to be merged. A line can be
an argument of itself; then it is written into itself as it is by now. -/
def Merging.step (index : LineIndex) (i size : Nat) (s : Merging) (arg : String) : Merging :=
  match s.lines[i]?, index.place? arg with
  | some line, some j =>
    match s.lines[j]? with
    | some other =>
      if isMerged index size line other then
        let inputs := (index.inputs arg).filter (· ≠ arg)
        let expression := Text.replaceWord arg other.asOperand line.expression
        { lines := inputs.foldl (takeOver index i)
            (s.lines.modify i fun l => { l with expression := expression })
          pending := s.pending ++ inputs
          dropped := j :: s.dropped }
      else s
    | none => s
  | _, _ => s

/-- One round: looks at the pending arguments. Those that are taken over are pending for the next
round. -/
def Merging.round (index : LineIndex) (i size : Nat) (s : Merging) : Merging :=
  s.pending.foldl (Merging.step index i size) { s with pending := [] }

/-- Rounds until no argument is pending, but at most the given number. -/
def Merging.rounds (index : LineIndex) (i size : Nat) : Nat → Merging → Merging
  | 0, s => s
  | n + 1, s => if s.pending.isEmpty then s else rounds index i size n (s.round index i size)

/-- A bound on the rounds. Each goes one step down the lines; along a cycle of arguments the
expression grows, so that it becomes too long before the bound is reached. -/
def maxRounds (lines : List Line) : Nat := (lines.length + 1) * maxLineLength

/-- Merges into the line at a place. -/
def Merging.visit (index : LineIndex) (s : Merging) (i : Nat) : Merging :=
  match s.lines[i]? with
  | some line =>
    Merging.rounds index i line.expression.utf8ByteSize (maxRounds s.lines)
      { s with pending := line.arguments }
  | none => s

/-- Merges into all lines in turn. -/
def mergeAll (lines : List Line) : Merging :=
  (List.range lines.length).foldl (Merging.visit (LineIndex.ofLines lines)) { lines }

/-- The merged lines. -/
def mergeLines (lines : List Line) : List Line :=
  let merged := mergeAll lines
  (merged.lines.zipIdx.filter fun (_, i) => !merged.dropped.contains i).map (·.1)

/-- The code of a line without its indentation. -/
def Line.code (l : Line) : String := l.left ++ l.expression ++ l.right

/-- The text of a line. -/
def Line.text (l : Line) : String :=
  String.join (List.replicate l.indent.toNat "  ") ++ (l.code ++ "\n")

/-- The text of lines, the variables renamed in order, one after the other. -/
def renderLines (lines : List Line) : String :=
  lines.zipIdx.foldl (fun text (l, i) => Text.replaceWord l.name ("v" ++ toString i) text)
    (String.join (lines.map Line.text))

end KernelFusion
