import Bindery.Text

/-!
# Laying out code

Code is a list of layout steps.  A writer carries them out: it keeps the text
written so far and the level at which the next line is indented.
-/

namespace Bindery

/-- One step of laying out code. -/
inductive Layout where
  /-- An indented line. -/
  | line (text : String)
  /-- Every line of a text, indented unless it is empty. -/
  | block (text : String)
  /-- A text as it stands. -/
  | raw (text : String)
  /-- An empty line. -/
  | blank
  /-- Lines from here on stand one level deeper. -/
  | indent
  /-- Lines from here on stand one level less deep. -/
  | dedent
deriving DecidableEq, Inhabited

/-- Code to be laid out, step by step. -/
abbrev Code := List Layout

/-- Text under construction. -/
structure Writer where
  /-- What one level of indentation is written as. -/
  unit : String := "\t"
  level : Nat := 0
  text : String := ""
deriving DecidableEq, Inhabited

namespace Writer

/-- An empty writer with the same unit of indentation, at the outermost level. -/
def fork (writer : Writer) : Writer :=
  { unit := writer.unit }

/-- The indentation of the current level. -/
def indentation (writer : Writer) : String :=
  String.join (List.replicate writer.level writer.unit)

/-- Append a text as it stands. -/
def append (writer : Writer) (text : String) : Writer :=
  { writer with text := writer.text ++ text }

/-- Append one indented line. -/
def line (writer : Writer) (text : String) : Writer :=
  writer.append (writer.indentation ++ text ++ "\n")

/-- Append one line of a block. -/
def blockLine (writer : Writer) (text : String) : Writer :=
  if text.isEmpty then writer.append "\n" else writer.line text

/-- Carry out one layout step. -/
def put (writer : Writer) : Layout → Writer
  | .line text => writer.line text
  | .block text => (Text.lines text).foldl blockLine writer
  | .raw text => writer.append text
  | .blank => writer.append "\n"
  | .indent => { writer with level := writer.level + 1 }
  | .dedent => { writer with level := writer.level - 1 }

/-- Carry out layout steps in order. -/
def write (writer : Writer) (code : Code) : Writer :=
  code.foldl put writer

@[simp]
theorem write_nil (writer : Writer) : writer.write [] = writer := rfl

@[simp]
theorem write_cons (writer : Writer) (step : Layout) (code : Code) :
    writer.write (step :: code) = (writer.put step).write code := rfl

@[simp]
theorem write_append (writer : Writer) (first second : Code) :
    writer.write (first ++ second) = (writer.write first).write second :=
  List.foldl_append

end Writer

end Bindery
