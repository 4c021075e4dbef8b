namespace RightOfWay.Logic

/-- A finite, non-empty sequence of observations. -/
structure Trace (O : Type) where
  first : O
  rest : List O

namespace Trace

variable {O : Type}

def toList (t : Trace O) : List O := t.first :: t.rest

/-- A trace of the given observations, if there are any. -/
def ofList? : List O → Option (Trace O)
  | [] => none
  | o :: os => some ⟨o, os⟩

/-- Appends the observation taken after a further step. -/
def push (t : Trace O) (o : O) : Trace O := ⟨t.first, t.rest ++ [o]⟩

def length (t : Trace O) : Nat := t.rest.length + 1

/-- Number of steps behind the observations. -/
def steps (t : Trace O) : Nat := t.rest.length

def last (t : Trace O) : O := t.rest.getLastD t.first

def get? (t : Trace O) (i : Nat) : Option O := t.toList[i]?

def map {P : Type} (f : O → P) (t : Trace O) : Trace P := ⟨f t.first, t.rest.map f⟩

@[simp] theorem toList_push (t : Trace O) (o : O) : (t.push o).toList = t.toList ++ [o] := rfl

@[simp] theorem length_toList (t : Trace O) : t.toList.length = t.length := rfl

@[simp] theorem ofList?_toList (t : Trace O) : ofList? t.toList = some t := rfl

theorem length_eq_steps_succ (t : Trace O) : t.length = t.steps + 1 := rfl

end Trace

end RightOfWay.Logic
