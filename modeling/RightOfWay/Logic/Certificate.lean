import RightOfWay.Logic.Meaning

namespace RightOfWay.Logic

/-- The robustness of a specification over traces sampled under an action. -/
structure Certificate (A : Type) where
  /-- The worst degree over all traces. -/
  robustness : Degree
  action : A
  /-- The degree of each trace, in sampling order. -/
  perTrace : List Degree

/-- Whether the worst value reaches the threshold. A degree without values never does. -/
def Certificate.abides {A : Type} (c : Certificate A) (threshold : Float) : Bool :=
  match c.robustness.worst with
  | .ok worst => threshold ≤ worst
  | .error _ => false

namespace Spec

variable {O A : Type}

/-- The degrees of several traces, in order; the first failure is the result. -/
def evaluateAll (s : Spec O) : List (Trace O) → Except EvalError (List Degree)
  | [] => .ok []
  | t :: ts =>
    match s.evaluate t with
    | .error e => .error e
    | .ok d =>
      match s.evaluateAll ts with
      | .error e => .error e
      | .ok ds => .ok (d :: ds)

def certify (s : Spec O) (t : Trace O) (a : A) : Except EvalError (Certificate A) :=
  (s.evaluate t).map fun d => ⟨d, a, []⟩

/-- The certificate of a batch: the conjunction of its traces' degrees, so one bad trace decides it.
An empty batch is a conjunction of nothing and fails. -/
def certifyAll (s : Spec O) (ts : List (Trace O)) (a : A) : Except EvalError (Certificate A) :=
  (s.evaluateAll ts).bind fun ds => (Degree.conjunction ds).map fun worst => ⟨.scalar worst, a, ds⟩

end Spec

end RightOfWay.Logic
