namespace RightOfWay.Logic

/-- A temporal formula. Conjunction and disjunction take any number of operands. -/
inductive Formula where
  | atom (name : String)
  | truth
  | neg (p : Formula)
  | conj (ps : List Formula)
  | disj (ps : List Formula)
  | always (p : Formula)
  | eventually (p : Formula)
  | untl (p q : Formula)
  deriving Inhabited

namespace Formula

def falsity : Formula := .neg .truth

def and (p q : Formula) : Formula := .conj [p, q]

def or (p q : Formula) : Formula := .disj [p, q]

/-- Material implication: the premise fails or the conclusion holds. -/
def implies (p q : Formula) : Formula := p.neg.or q

def iff (p q : Formula) : Formula := (p.implies q).and (q.implies p)

mutual

/-- Whether two formulas are the same tree. -/
def same : Formula → Formula → Bool
  | .atom a, .atom b => a == b
  | .truth, .truth => true
  | .neg p, .neg q => same p q
  | .conj ps, .conj qs => sameList ps qs
  | .disj ps, .disj qs => sameList ps qs
  | .always p, .always q => same p q
  | .eventually p, .eventually q => same p q
  | .untl p q, .untl p' q' => same p p' && same q q'
  | _, _ => false

def sameList : List Formula → List Formula → Bool
  | [], [] => true
  | p :: ps, q :: qs => same p q && sameList ps qs
  | _, _ => false

end

mutual

def size : Formula → Nat
  | .atom _ | .truth => 1
  | .neg p | .always p | .eventually p => 1 + size p
  | .conj ps | .disj ps => 1 + sizeList ps
  | .untl p q => 1 + size p + size q

def sizeList : List Formula → Nat
  | [] => 0
  | p :: ps => size p + sizeList ps

end

mutual

/-- Adds to `seen` the propositions of a formula that are not yet in it, left to right. -/
def collect (seen : List String) : Formula → List String
  | .atom name => if seen.contains name then seen else seen ++ [name]
  | .truth => seen
  | .neg p | .always p | .eventually p => collect seen p
  | .conj ps | .disj ps => collectList seen ps
  | .untl p q => collect (collect seen p) q

def collectList (seen : List String) : List Formula → List String
  | [] => seen
  | p :: ps => collectList (collect seen p) ps

end

/-- The propositions of a formula, each once, in the order of their first occurrence. -/
def atoms (p : Formula) : List String := collect [] p

mutual

/-- The written form in front of `rest`: every node but a proposition and truth is in parentheses. -/
def chars (rest : List Char) : Formula → List Char
  | .atom name => name.toList ++ rest
  | .truth => 'T' :: rest
  | .neg p => '(' :: '!' :: ' ' :: chars (')' :: rest) p
  | .conj ps => '(' :: charsList [' ', '&', ' '] (')' :: rest) ps
  | .disj ps => '(' :: charsList [' ', '|', ' '] (')' :: rest) ps
  | .always p => '(' :: 'G' :: ' ' :: chars (')' :: rest) p
  | .eventually p => '(' :: 'F' :: ' ' :: chars (')' :: rest) p
  | .untl p q => '(' :: chars (' ' :: 'U' :: ' ' :: chars (')' :: rest) q) p

/-- Operands with `sep` between them. -/
def charsList (sep rest : List Char) : List Formula → List Char
  | [] => rest
  | p :: ps => chars (charsTail sep rest ps) p

/-- Further operands, each behind a `sep`. -/
def charsTail (sep rest : List Char) : List Formula → List Char
  | [] => rest
  | p :: ps => sep ++ chars (charsTail sep rest ps) p

end

def text (p : Formula) : String := String.ofList (chars [] p)

end Formula

end RightOfWay.Logic
