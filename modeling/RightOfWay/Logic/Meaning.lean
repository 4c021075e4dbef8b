import RightOfWay.Logic.Robustness
import RightOfWay.Logic.Trace

namespace RightOfWay.Logic

/-- The degree to which a named proposition holds at an observation. -/
abbrev Valuation (O : Type) := String → O → Except EvalError Float

namespace Formula

variable {O : Type}

/-- The values of a proposition along the observations; the first failure is the result. -/
def values (v : Valuation O) (name : String) : List O → Except EvalError (List Float)
  | [] => .ok []
  | o :: os =>
    match v name o with
    | .error e => .error e
    | .ok x =>
      match values v name os with
      | .error e => .error e
      | .ok xs => .ok (x :: xs)

mutual

/-- The degree of a formula over a non-empty list of observations. -/
def degree (v : Valuation O) (os : List O) : Formula → Except EvalError Degree
  | .atom name => (values v name os).map .sequence
  | .truth => .ok (.scalar 1.0)
  | .neg p => (degree v os p).map Degree.complement
  | .always p => (degree v os p).bind fun d => d.worst.map .scalar
  | .eventually p => (degree v os p).bind fun d => d.best.map .scalar
  | .conj ps => (degrees v os ps).bind fun ds => (Degree.conjunction ds).map .scalar
  | .disj ps => (degrees v os ps).bind fun ds => (Degree.disjunction ds).map .scalar
  | .untl p q => .error (.unsupported (.untl p q))

def degrees (v : Valuation O) (os : List O) : List Formula → Except EvalError (List Degree)
  | [] => .ok []
  | p :: ps => (degree v os p).bind fun d => (degrees v os ps).map (d :: ·)

end

/-- The degree of a formula over observations. That there are none is found before any node is visited. -/
def evaluate (p : Formula) (v : Valuation O) (os : List O) : Except EvalError Degree :=
  if os.isEmpty then .error .emptyTrace else degree v os p

end Formula

/-- A formula together with what its propositions mean. -/
structure Spec (O : Type) where
  formula : Formula
  valuation : Valuation O

def Spec.evaluate {O : Type} (s : Spec O) (t : Trace O) : Except EvalError Degree :=
  s.formula.evaluate s.valuation t.toList

end RightOfWay.Logic
