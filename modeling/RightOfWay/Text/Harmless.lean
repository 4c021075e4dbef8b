import RightOfWay.Text.Quoted

namespace RightOfWay.Text

/-- How a character stands on a terminal. Line breaks and tabs are layout and stay. -/
def tame (c : Char) : List Char :=
  match c with
  | '\x07' => ['\\', 'x', '0', '7']
  | '\x08' => ['\\', 'x', '0', '8']
  | '\x0c' => ['\\', 'x', '0', 'c']
  | '\x1b' => ['\\', 'x', '1', 'b']
  | '\x7f' => ['\\', 'x', '7', 'f']
  | _ =>
    if 0x80 ≤ c.toNat && c.toNat ≤ 0x9f then ['\\', 'u', '\x7b'] ++ hexDigits c.toNat ++ ['\x7d'] else [c]

def harmless (s : String) : String := String.ofList (s.toList.flatMap tame)

end RightOfWay.Text
