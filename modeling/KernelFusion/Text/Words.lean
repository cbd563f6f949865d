/-
Whole words in generated code.

A word is a maximal run of letters, digits and underscores, all of them ASCII. Every text is cut in
exactly one way into words and single other characters; counting and replacing a word act on the
pieces of this cut. A replacement therefore never touches a longer word that merely contains the
name. The empty word stands at both ends of every other word.

What replaces a word is a format, in which dollar signs stand for what is found and for the text
around it. A format without dollar signs stands for itself.
-/

namespace KernelFusion.Text

/-- The characters a word is made of. -/
def isWordChar (c : Char) : Bool := c.isAlphanum || c == '_'

/-- The pieces of a text: maximal words, and every other character on its own. -/
def pieces : List Char → List (List Char)
  | [] => []
  | c :: cs =>
    match pieces cs with
    | (d :: w) :: rest =>
      if isWordChar c && isWordChar d then (c :: d :: w) :: rest else [c] :: (d :: w) :: rest
    | rest => [c] :: rest

/-- The pieces of a text make up the text. -/
theorem flatten_pieces (cs : List Char) : (pieces cs).flatten = cs := by
  induction cs with
  | nil => rfl
  | cons c cs ih =>
    rw [pieces]
    split
    · next d w rest h =>
      rw [h] at ih
      split <;> simp_all
    · simp [ih]

/-- No piece of a text is empty. -/
theorem ne_nil_of_mem_pieces {cs p : List Char} (h : p ∈ pieces cs) : p ≠ [] := by
  induction cs generalizing p with
  | nil => simp [pieces] at h
  | cons c cs ih =>
    rw [pieces] at h
    split at h
    · next d w rest hw =>
      split at h
      · rcases List.mem_cons.1 h with rfl | h
        · simp
        · exact ih (hw ▸ List.mem_cons_of_mem _ h)
      · rcases List.mem_cons.1 h with rfl | h
        · simp
        · exact ih (hw ▸ h)
    · rcases List.mem_cons.1 h with rfl | h
      · simp
      · exact ih h

/-- Is a piece a word? -/
def isWord (p : List Char) : Bool := p.any isWordChar

/-- How often a word occurs in a text. -/
def countWord (name text : String) : Nat :=
  if name = "" then 2 * (pieces text.toList).countP isWord
  else (pieces text.toList).count name.toList

/-- Where reading a format stands: in its text, behind a dollar sign, or behind the first digit of a
number, which may be zero. -/
inductive FormatState where
  | text
  | dollar
  | number (zero : Bool)
deriving DecidableEq

/-- What a format gives for a match, with the text since the match before it and the text behind it.
A dollar sign stands for itself unless a sign or a number behind it gives it a meaning. Numbers have
up to two digits, and zero is the number of the match; there is nothing at other numbers. -/
def formatted (before found after : List Char) : FormatState → List Char → List Char
  | .text, [] => []
  | .dollar, [] => ['$']
  | .number zero, [] => if zero then found else []
  | .text, c :: rest =>
    if c = '$' then formatted before found after .dollar rest
    else c :: formatted before found after .text rest
  | .dollar, c :: rest =>
    if c = '&' then found ++ formatted before found after .text rest
    else if c = '\x60' then before ++ formatted before found after .text rest
    else if c = '\x27' then after ++ formatted before found after .text rest
    else if c.isDigit then formatted before found after (.number (c = '0')) rest
    else if c = '$' then '$' :: formatted before found after .text rest
    else '$' :: c :: formatted before found after .text rest
  | .number zero, c :: rest =>
    if c.isDigit then
      (if zero && c = '0' then found else []) ++ formatted before found after .text rest
    else
      (if zero then found else []) ++
        if c = '$' then formatted before found after .dollar rest
        else c :: formatted before found after .text rest

/-- Some pieces with every occurrence of one word replaced, where `before` is the text since the
last occurrence, read backward. -/
def replacePieces (name format : List Char) : List Char → List (List Char) → List Char
  | _, [] => []
  | before, p :: rest =>
    if p = name then
      formatted before.reverse p rest.flatten .text format ++ replacePieces name format [] rest
    else if name = [] && isWord p then
      formatted before.reverse [] (p ++ rest.flatten) .text format ++ p
        ++ formatted p [] rest.flatten .text format ++ replacePieces name format [] rest
    else p ++ replacePieces name format (p.reverse ++ before) rest

/-- The text with every occurrence of one word replaced by what a format gives for it. -/
def replaceWord (name format text : String) : String :=
  String.ofList (replacePieces name.toList format.toList [] (pieces text.toList))

end KernelFusion.Text
