import RightOfWay.Command.Log
import RightOfWay.Text.Blank

namespace RightOfWay.Command

/-- What is written in one piece. -/
inductive Piece where
  | event (e : Event)
  | text (s : String)

namespace Transcript

/-- The lines of a text, and what stands on the line after them. -/
def complete (s : String) : List String × String :=
  let lines := s.splitOn "\n"
  (lines.dropLast, lines.getLastD "")

/-- The lines of the pieces after an unfinished line. The time cuts off what stands before it on its line,
and blanks around a line are left out. -/
def linesAfter (unfinished : String) : List Piece → List String
  | [] => if unfinished.isEmpty then [] else [Text.trimmed unfinished]
  | .text s :: ps =>
    let (done, rest) := complete (unfinished ++ s)
    done.map Text.trimmed ++ linesAfter rest ps
  | .event e :: ps => (e.text.splitOn "\n").map Text.trimmed ++ linesAfter "" ps

def lines (ps : List Piece) : List String := linesAfter "" ps

end Transcript

end RightOfWay.Command
