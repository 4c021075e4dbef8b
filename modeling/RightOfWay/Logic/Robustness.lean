import RightOfWay.Number.Extremum
import RightOfWay.Number.Layout
import RightOfWay.Logic.Formula

namespace RightOfWay.Logic

inductive Connective where
  | and
  | or
  deriving DecidableEq

/-- The two ends to which a degree is reduced. -/
inductive Extremum where
  | min
  | max
  deriving DecidableEq

/-- Why a formula has no degree over a trace. -/
inductive EvalError where
  /-- A formula that the semantics gives no meaning to. -/
  | unsupported (p : Formula)
  /-- A proposition that the observations do not speak of. -/
  | unknownAtom (name : String)
  | emptyTrace
  | emptyOperands (c : Connective)
  | emptySequence (e : Extremum)

def Connective.name : Connective → String
  | .and => "and"
  | .or => "or"

def Extremum.name : Extremum → String
  | .min => "min"
  | .max => "max"

def EvalError.message : EvalError → String
  | .unsupported p => "Unsupported specification: " ++ p.text
  | .unknownAtom name => "Atomic proposition '" ++ name ++ "' not found in observation"
  | .emptyTrace => "Cannot evaluate over an empty trajectory"
  | .emptyOperands c => "'" ++ c.name ++ "' applied to zero operands"
  | .emptySequence e => "'" ++ e.name ++ "' reduction over an empty degree sequence"

inductive Degree where
  | scalar (x : Float)
  | sequence (xs : List Float)

namespace Degree

/-- The values of a degree; a scalar has one. -/
def values : Degree → List Float
  | .scalar x => [x]
  | .sequence xs => xs

def isScalar : Degree → Bool
  | .scalar _ => true
  | .sequence _ => false

def scalar? : Degree → Option Float
  | .scalar x => some x
  | .sequence _ => none

def map (f : Float → Float) : Degree → Degree
  | .scalar x => .scalar (f x)
  | .sequence xs => .sequence (xs.map f)

def worst (d : Degree) : Except EvalError Float :=
  match Number.leastOf? d.values with
  | some x => .ok x
  | none => .error (.emptySequence .min)

def best (d : Degree) : Except EvalError Float :=
  match Number.greatestOf? d.values with
  | some x => .ok x
  | none => .error (.emptySequence .max)

/-- Negation: the complement of every value to one. -/
def complement (d : Degree) : Degree := d.map fun x => 1.0 - x

/-- Applies a reduction to each degree, left to right; the first failure is the result. -/
def reduceAll (f : Degree → Except EvalError Float) : List Degree → Except EvalError (List Float)
  | [] => .ok []
  | d :: ds =>
    match f d with
    | .error e => .error e
    | .ok x =>
      match reduceAll f ds with
      | .error e => .error e
      | .ok xs => .ok (x :: xs)

/-- Conjunction: the smallest of the operands' smallest values. -/
def conjunction (ds : List Degree) : Except EvalError Float :=
  if ds.isEmpty then .error (.emptyOperands .and)
  else (reduceAll worst ds).map (·.foldl Number.least Number.infinity)

/-- Disjunction: the largest of the operands' largest values. -/
def disjunction (ds : List Degree) : Except EvalError Float :=
  if ds.isEmpty then .error (.emptyOperands .or)
  else (reduceAll best ds).map (·.foldl Number.greatest (-Number.infinity))

/-- Values are shown with four places. -/
def showValue (x : Float) : String := String.ofList (Number.fixed 4 x)

/-- The text of a degree; a sequence stands in brackets. -/
def text : Degree → String
  | .scalar x => showValue x
  | .sequence xs => "[" ++ ", ".intercalate (xs.map showValue) ++ "]"

end Degree

end RightOfWay.Logic
