import DocComment.Text.Basic

/-!
# Styles of terminal text

Parts of a report may be set in colours and weights, by control sequences around them. A part that
ends a style itself gets the style again after that.
-/

namespace DocComment

/-- The styles of reports. -/
inductive Style where
  | cyan
  | magenta
  | yellow
  | dimmed
  | bold
  | red
  | green
  | boldYellow
  | boldRed
  | boldGreen
  deriving DecidableEq, Repr, Inhabited

namespace Style

/-- The numbers of a style in its control sequence. -/
def code : Style → Text
  | .cyan => ['3', '6']
  | .magenta => ['3', '5']
  | .yellow => ['3', '3']
  | .dimmed => ['2']
  | .bold => ['1']
  | .red => ['3', '1']
  | .green => ['3', '2']
  | .boldYellow => ['1', ';', '3', '3']
  | .boldRed => ['1', ';', '3', '1']
  | .boldGreen => ['1', ';', '3', '2']

/-- The control sequence that starts a style. -/
def start (s : Style) : Text := ['\x1b', '['] ++ s.code ++ ['m']

/-- The control sequence that ends all styles. -/
def reset : Text := ['\x1b', '[', '0', 'm']

/-- The text with `again` after every end of a style. -/
def afterResets (again : Text) : Text → Text
  | '\x1b' :: '[' :: '0' :: 'm' :: rest => reset ++ again ++ afterResets again rest
  | c :: rest => c :: afterResets again rest
  | [] => []

/-- The text in a style, if styles are wanted. -/
def apply (wanted : Bool) (s : Style) (text : Text) : Text :=
  if wanted then s.start ++ afterResets s.start text ++ reset else text

end Style

end DocComment
