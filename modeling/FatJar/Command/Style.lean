/-
FatJar.Command.Style — text with color.

What a command writes is a list of pieces, some of which have a color or are
bold. Where color is not wanted only their text remains.

Contents:
1. pieces;
2. writing pieces;
3. when color is wanted;
4. the pieces that commands use.
-/

namespace FatJar.Command

/-! ## 1. Pieces -/

/-- A color of the terminal. -/
inductive Color where
  | red
  | green
  | yellow
  | cyan
  deriving DecidableEq, Repr

/-- The color and the weight of a text. -/
structure Style where
  color : Option Color
  bold : Bool
  deriving DecidableEq, Repr

/-- A text with or without a style. -/
inductive Piece where
  | plain (text : String)
  | styled (style : Style) (text : String)
  deriving DecidableEq, Repr

/-! ## 2. Writing -/

/-- The number of a color. -/
def Color.code : Color → Nat
  | .red => 31
  | .green => 32
  | .yellow => 33
  | .cyan => 36

/-- The sequence that asks the terminal for something. -/
def escape (code : Nat) : String :=
  "\x1b[" ++ toString code ++ "m"

/-- Goes back to plain text. -/
def reset : String := escape 0

/-- Switches to a style, from whatever was before. -/
def Style.opening (s : Style) : String :=
  reset ++ (if s.bold then escape 1 else "") ++ ((s.color.map fun c => escape c.code).getD "")

/-- A piece as it is written. -/
def Piece.render (colored : Bool) : Piece → String
  | .plain text => text
  | .styled style text => if colored then style.opening ++ text ++ reset else text

/-- Pieces as they are written. -/
def render (colored : Bool) (pieces : List Piece) : String :=
  String.join (pieces.map (Piece.render colored))

/-! ## 3. When -/

/-- When color is wanted. -/
inductive ColorMode where
  | auto
  | always
  | never
  deriving DecidableEq, Repr

namespace ColorMode

/-- The name of a mode. -/
def name : ColorMode → String
  | .auto => "auto"
  | .always => "always"
  | .never => "never"

/-- All modes. -/
def all : List ColorMode := [.auto, .always, .never]

/-- The mode of a name. -/
def ofText? (text : String) : Option ColorMode :=
  all.find? fun mode => mode.name == text

/-- Whether a terminal of the given kind, if there is one, shows color. -/
def terminalShows : Option String → Bool
  | none => false
  | some kind => kind != "dumb"

/-- Whether color is used: `refused` says that the user wants none anywhere. -/
def isColored (mode : ColorMode) (refused : Bool) (terminal : Option String) : Bool :=
  if refused then false
  else
    match mode with
    | .always => true
    | .never => false
    | .auto => terminalShows terminal

end ColorMode

/-! ## 4. The pieces of the commands -/

/-- The end of a line. -/
def newline : Piece := .plain "\n"

/-- Says that something has been done. -/
def success (text : String) : Piece := .styled ⟨some .green, true⟩ text

/-- Says that something may be wrong. -/
def warning (text : String) : Piece := .styled ⟨some .yellow, true⟩ text

/-- A text to be told apart from others. -/
def note (text : String) : Piece := .styled ⟨some .cyan, false⟩ text

/-- A text that stands out. -/
def strong (text : String) : Piece := .styled ⟨none, true⟩ text

/-- Announces an error. -/
def alarm (text : String) : Piece := .styled ⟨some .red, true⟩ text

/-- The blanks that fill a text up to a width. -/
def filling (width : Nat) (text : String) : String :=
  String.ofList (List.replicate (width - text.length) ' ')

/-- A line with a label and a value. -/
def field (label value : String) : List Piece :=
  [note ("  " ++ label ++ filling 12 label), .plain value, newline]

/-- A text at the right end of a column. -/
def column (text : String) : String :=
  filling 10 text ++ text ++ "  "

end FatJar.Command
