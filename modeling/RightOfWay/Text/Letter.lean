namespace RightOfWay.Text

/-- The capital form of a character, which may have several letters. -/
def capital (c : Char) : List Char :=
  match c with
  | 'ſ' => ['S']
  | 'ﬅ' | 'ﬆ' => ['S', 'T']
  | _ => [c.toUpper]

def capitals (s : String) : String := String.ofList (s.toList.flatMap capital)

def smallLetters (s : String) : String := String.ofList (s.toList.map Char.toLower)

end RightOfWay.Text
