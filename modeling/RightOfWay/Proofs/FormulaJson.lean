import RightOfWay.Format.Logic
import RightOfWay.Proofs.JsonText

namespace RightOfWay.Logic.Formula

open Json (Token tokens tokensTail tokensMembers parse? parse?_compact encode)

/-- Only operands come as a list, never a formula. -/
theorem toJson_ne_arr (p : Formula) (vs : List Json) : toJson p ≠ .arr vs := by
  cases p <;> simp [toJson]

theorem ofJson?_operator (name : String) (p : Formula) (hatom : name ≠ "Atomic") (htruth : name ≠ "True") :
    ofJson? (.obj [(name, toJson p)]) = ofOperator? name (ofJson? (toJson p)) none := by
  rw [ofJson?]
  · exact toJson_ne_arr p
  · intro s hname _
    exact hatom hname
  · intro hname _
    exact htruth hname

mutual

theorem ofJson?_toJson : (p : Formula) → ofJson? (toJson p) = some p
  | .atom name => by simp [toJson, ofJson?]
  | .truth => by simp [toJson, ofJson?]
  | .neg p | .always p | .eventually p => by
    rw [toJson, ofJson?_operator _ _ (by decide) (by decide), ofJson?_toJson p]
    rfl
  | .conj ps | .disj ps => by
    rw [toJson, ofJson?, ofJsonList?_toJsonList ps]
    rfl
  | .untl p q => by
    rw [toJson, ofJson?, ofJsonList?, ofJsonList?, ofJsonList?, ofJson?_toJson p, ofJson?_toJson q]
    rfl

theorem ofJsonList?_toJsonList : (ps : List Formula) → ofJsonList? (toJsonList ps) = some ps
  | [] => rfl
  | p :: ps => by rw [toJsonList, ofJsonList?, ofJson?_toJson p, ofJsonList?_toJsonList ps]

end

mutual

/-- A formula is written with names and brackets only. -/
theorem tokens_toJson_closed (rest : List Token) (hrest : ∀ t ∈ rest, t.isClosed = true) :
    (p : Formula) → ∀ t ∈ tokens rest (toJson p), t.isClosed = true
  | .atom name => by simpa [toJson, tokens, tokensMembers, Token.isClosed] using hrest
  | .truth => by simpa [toJson, tokens, Token.isClosed] using hrest
  | .neg p | .always p | .eventually p => by
    have hoperand := tokens_toJson_closed (.closeObject :: rest) (by simpa [Token.isClosed] using hrest) p
    simpa [toJson, tokens, tokensMembers, Token.isClosed] using hoperand
  | .conj [] | .disj [] => by
    simpa [toJson, toJsonList, tokens, tokensMembers, Token.isClosed] using hrest
  | .conj (p :: ps) | .disj (p :: ps) => by
    have hothers := tokensTail_toJsonList_closed (.closeObject :: rest) (by simpa [Token.isClosed] using hrest) ps
    have hoperands := tokens_toJson_closed _ hothers p
    simpa [toJson, toJsonList, tokens, tokensMembers, Token.isClosed] using hoperands
  | .untl p q => by
    have hsecond := tokens_toJson_closed (.closeArray :: .closeObject :: rest)
      (by simpa [Token.isClosed] using hrest) q
    have hcomma : ∀ t ∈ Token.comma :: tokens (.closeArray :: .closeObject :: rest) (toJson q), t.isClosed = true := by
      simpa [Token.isClosed] using hsecond
    have hfirst := tokens_toJson_closed _ hcomma p
    simpa [toJson, tokens, tokensTail, tokensMembers, Token.isClosed] using hfirst

theorem tokensTail_toJsonList_closed (rest : List Token) (hrest : ∀ t ∈ rest, t.isClosed = true) :
    (ps : List Formula) → ∀ t ∈ tokensTail rest (toJsonList ps), t.isClosed = true
  | [] => by simpa [toJsonList, tokensTail, Token.isClosed] using hrest
  | p :: ps => by
    have hothers := tokensTail_toJsonList_closed rest hrest ps
    have hoperands := tokens_toJson_closed _ hothers p
    simpa [toJsonList, tokensTail, Token.isClosed] using hoperands

end

theorem parse?_compact_toJson (p : Formula) : parse? (toJson p).compact = some (toJson p) :=
  parse?_compact _ (tokens_toJson_closed [] (by simp) p)

theorem read?_compact_encode (p : Formula) : Json.read? Formula (encode p).compact =
    if (encode p).depth ≤ Json.depthLimit then some p else none := by
  change (parse? (toJson p).compact).bind _ = _
  rw [parse?_compact_toJson, Option.bind_some, ← ofJson?_toJson p]
  rfl

theorem eq_of_compact_eq (p q : Formula) (h : (encode p).compact = (encode q).compact) : p = q := by
  have hparse : parse? (toJson p).compact = parse? (toJson q).compact := congrArg parse? h
  rw [parse?_compact_toJson, parse?_compact_toJson, Option.some.injEq] at hparse
  have hread := congrArg ofJson? hparse
  rwa [ofJson?_toJson, ofJson?_toJson, Option.some.injEq] at hread

/-- A formula is read back from its compact text iff its form is nested within the limit of the reader, and formulas with
the same text are the same. -/
theorem formula_read_back_from_compact :
    (∀ p : Formula, (encode p).depth ≤ Json.depthLimit → Json.read? Formula (encode p).compact = some p) ∧
    (∀ p : Formula, Json.depthLimit < (encode p).depth → Json.read? Formula (encode p).compact = none) ∧
    ∀ p q : Formula, p ≠ q → (encode p).compact ≠ (encode q).compact := by
  refine ⟨?_, ?_, ?_⟩
  · intro p hdepth
    rw [read?_compact_encode, if_pos hdepth]
  · intro p hdepth
    rw [read?_compact_encode, if_neg (Nat.not_le.mpr hdepth)]
  · intro p q hne htext
    exact hne (eq_of_compact_eq p q htext)

/-- Operands of all shapes, and names of characters that are escaped in different ways, in one way or not at all. -/
def motley : Formula :=
  .untl (.always (.conj [])) (.disj [.atom "\"\\\n\x01\x7f", .truth, .eventually (.neg (.atom "é\u2028😀")), .atom ""])

theorem formula_read_back_from_compact_motley :
    (encode motley).depth = 7 ∧ Json.read? Formula (encode motley).compact = some motley ∧
    (encode (Nat.repeat neg 128 .truth)).depth = 128 ∧
    Json.read? Formula (encode (Nat.repeat neg 128 .truth)).compact = none ∧
    (encode motley).compact ≠ (encode motley.neg).compact := by
  have hmotley : (encode motley).depth = 7 := by decide +kernel
  have hdeep : (encode (Nat.repeat neg 128 .truth)).depth = 128 := by decide +kernel
  refine ⟨hmotley, ?_, hdeep, ?_, ?_⟩
  · exact formula_read_back_from_compact.1 motley (by rw [hmotley]; decide)
  · exact formula_read_back_from_compact.2.1 _ (by rw [hdeep]; decide)
  · exact formula_read_back_from_compact.2.2 motley motley.neg (by simp [motley])

end RightOfWay.Logic.Formula
