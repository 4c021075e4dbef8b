import RightOfWay.Logic.Formula
import RightOfWay.Number.Literal

namespace RightOfWay.Logic.Formula

def constant? (name arg : String) : Option Formula :=
  match name with
  | "atom" | "from" => some (.atom arg)
  | "tt" => some .truth
  | "ff" => some falsity
  | _ => none

def unary? (name : String) : Option (Formula → Formula) :=
  match name with
  | "not" | "op_not" => some .neg
  | "always" => some .always
  | "eventually" => some .eventually
  | _ => none

def binary? (name : String) : Option (Formula → Formula → Formula) :=
  match name with
  | "and" | "op_and" => some and
  | "or" | "op_or" => some or
  | "until" => some .untl
  | "implies" => some implies
  | "iff" => some iff
  | _ => none

/-- A word with as many operands as it says. -/
def manyOperands? (name : String) : Option (List Formula → Formula) :=
  match name with
  | "all" => some .conj
  | "any" => some .disj
  | _ => none

/-- Joins the top `count` formulas of a stack into one. -/
def joinTop? (join : List Formula → Formula) (count : Nat) (stack : List Formula) : Option (List Formula) :=
  if stack.length < count then none else some (join (stack.take count).reverse :: stack.drop count)

/-- Applies a word to a stack. What stands behind the first colon is the word's argument. -/
def applyWord? (stack : List Formula) (word : String) : Option (List Formula) :=
  let name := String.ofList (word.toList.takeWhile (· != ':'))
  let arg := String.ofList ((word.toList.dropWhile (· != ':')).drop 1)
  match constant? name arg, unary? name, binary? name, manyOperands? name, stack with
  | some p, _, _, _, stack => some (p :: stack)
  | _, some f, _, _, p :: stack => some (f p :: stack)
  | _, _, some f, _, q :: p :: stack => some (f p q :: stack)
  | _, _, _, some join, stack => (Number.natBelow? UInt64.size arg).bind (joinTop? join · stack)
  | _, _, _, _, stack =>
    match name, stack with
    | "dup", p :: stack => some (p :: p :: stack)
    | "swap", q :: p :: stack => some (p :: q :: stack)
    | _, _ => none

/-- The formula that is on top after all words. -/
def ofWords? (words : List String) : Option Formula := (words.foldlM applyWord? []).bind List.head?

end RightOfWay.Logic.Formula
