/-! Colours and weights of text on a terminal. -/

namespace DocTemplate

inductive Style where
  | bold
  | red
  | green
  | yellow
  | blue
  | boldRed
  | boldYellow
deriving DecidableEq, Repr

namespace Style

/-- The numbers of a style in an escape sequence. -/
def code : Style → String
  | bold => "1"
  | red => "31"
  | green => "32"
  | yellow => "33"
  | blue => "34"
  | boldRed => "1;31"
  | boldYellow => "1;33"

/-- A text in a style, if output is coloured. -/
def apply (style : Style) (coloured : Bool) (s : String) : String :=
  if coloured then "\x1b[" ++ style.code ++ "m" ++ s ++ "\x1b[0m" else s

end Style
end DocTemplate
