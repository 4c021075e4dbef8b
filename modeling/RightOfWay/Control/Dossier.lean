import RightOfWay.Control.Supervisor

namespace RightOfWay.Control

open Logic (Certificate Degree)

/-- A certificate with its action as text. -/
structure Entry where
  action : String
  robustness : Float
  accepted : Bool
  perTrace : List Float

/-- The worst value of a degree; a degree without values is entered as NaN. -/
def entryValue (d : Degree) : Float :=
  match d.worst with
  | .ok x => x
  | .error _ => Number.nan

/-- The entry of a certificate at an acceptance threshold. -/
def Entry.ofCertificate {A : Type} (actionText : A → String) (threshold : Float) (c : Certificate A) :
    Entry where
  action := actionText c.action
  robustness := entryValue c.robustness
  accepted := c.abides threshold
  perTrace := c.perTrace.map entryValue

structure Dossier where
  rule : String
  formula : String
  seed : UInt64
  threshold : Float
  entries : List Entry
  /-- The labels of the observations of every trace. -/
  traces : List (List String)
  accepted : Nat
  rejected : Nat

namespace Dossier

def start (rule formula : String) (seed : UInt64) (threshold : Float) : Dossier :=
  ⟨rule, formula, seed, threshold, [], [], 0, 0⟩

def enter {A : Type} (actionText : A → String) (d : Dossier) (c : Certificate A) : Dossier :=
  let e := Entry.ofCertificate actionText d.threshold c
  { d with
    entries := d.entries ++ [e]
    accepted := if e.accepted then d.accepted + 1 else d.accepted
    rejected := if e.accepted then d.rejected else d.rejected + 1 }

def add {A O : Type} (d : Dossier) (actionText : A → String) (label : O → String) (r : Report A O) :
    Dossier :=
  let d := r.certificates.foldl (enter actionText) d
  { d with traces := d.traces ++ r.traces.map fun t => t.toList.map label }

end Dossier

end RightOfWay.Control
