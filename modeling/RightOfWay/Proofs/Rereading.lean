import RightOfWay.Proofs.JsonText
import RightOfWay.Proofs.Numerals

namespace RightOfWay.Json

/-- What the text of a token is read as. -/
def Token.reread : Token → Token
  | .number n =>
    match scanNumber (Token.number n).text with
    | some (m, _) => .number m
    | none => .null
  | .str none => .null
  | t => t

/-- The value that a token of a number, or of no value, stands for. -/
def ofScalar : Token → Json
  | .number (some (.int i)) => .int i
  | .number (some (.float x)) => .float x
  | .number none => .unusable
  | _ => .null

mutual

/-- What the text of a value is read as. -/
def reread : Json → Json
  | .int i => ofScalar (Token.number (some (.int i))).reread
  | .float x => ofScalar (Token.number (some (.float x))).reread
  | .unusable => ofScalar (Token.number none).reread
  | .arr vs => .arr (rereadAll vs)
  | .obj ms => .obj (rereadMembers ms)
  | v => v

def rereadAll : List Json → List Json
  | [] => []
  | v :: vs => reread v :: rereadAll vs

def rereadMembers : List (String × Json) → List (String × Json)
  | [] => []
  | (k, v) :: ms => (k, reread v) :: rereadMembers ms

end

theorem rereadAll_eq_map (vs : List Json) : rereadAll vs = vs.map reread := by
  induction vs with
  | nil => rfl
  | cons v vs ih => rw [rereadAll, ih, List.map_cons]

theorem rereadMembers_eq_map (ms : List (String × Json)) : rereadMembers ms = ms.map fun m => (m.1, m.2.reread) := by
  induction ms with
  | nil => rfl
  | cons m ms ih => rw [rereadMembers, ih, List.map_cons]

theorem Numeral.text_append (n : Numeral) (h : n.WellFormed) (rest : List Char) :
    ∃ c cs, n.text ++ rest = c :: cs ∧ (c = '-' ∨ c.isDigit = true) := by
  cases hwhole : n.whole with
  | nil =>
    have hempty := h.isWhole
    rw [hwhole] at hempty
    cases hempty
  | cons d ds =>
    have hd : d.isDigit = true := h.whole d (by simp [hwhole])
    cases hminus : n.negative with
    | true => exact ⟨'-', _, by simp [text, hminus]; rfl, .inl rfl⟩
    | false => exact ⟨d, _, by simp [text, hminus, hwhole]; rfl, .inr hd⟩

/-- No other token and no blank begins like a numeral. -/
theorem scanToken_of_numeral {c : Char} (cs : List Char) (h : c = '-' ∨ c.isDigit = true) :
    isBlank c = false ∧ scanToken c cs = (scanNumber (c :: cs)).map fun (n, rest) => (.number n, rest) := by
  have hother (d : Char) (hd : d ≠ '-' ∧ d.isDigit = false) : c ≠ d := by
    rintro rfl
    simp_all
  have hblank : isBlank c = false := by
    simp [isBlank, hother ' ' (by decide), hother '\n' (by decide), hother '\t' (by decide), hother '\r' (by decide)]
  have hpunctuation : punctuation? c = none := by
    unfold punctuation?
    split <;> simp_all
  have hword : scanWord (c :: cs) = none := by
    unfold scanWord
    split <;> simp_all
  refine ⟨hblank, ?_⟩
  rw [scanToken, hpunctuation]
  dsimp only
  rw [if_neg (hother '"' (by decide)), hword]

theorem lex_numeral (n : Numeral) (h : n.WellFormed) (rest : List Char) (hrest : Detached rest) :
    lex (n.text ++ rest) = (lex rest).map (.number n.value :: ·) := by
  have hscan := scanNumber_text n h rest hrest
  obtain ⟨c, cs, htext, hc⟩ := n.text_append h rest
  obtain ⟨hblank, htoken⟩ := scanToken_of_numeral cs hc
  rw [htext] at hscan ⊢
  rw [hscan] at htoken
  exact lex_of_scanToken hblank htoken

theorem reread_number_of_numeral {q : Option Quantity} {n : Numeral} (h : n.WellFormed)
    (htext : (Token.number q).text = n.text) : (Token.number q).reread = .number n.value := by
  have hscan := scanNumber_text n h [] detached_nil
  rw [List.append_nil] at hscan
  rw [Token.reread, htext, hscan]

theorem reread_number_of_null {q : Option Quantity} (htext : (Token.number q).text = "null".toList) :
    (Token.number q).reread = .null := by
  have hscan : scanNumber "null".toList = none := rfl
  rw [Token.reread, htext, hscan]

/-- The text of a number is a numeral, or that of no value. -/
theorem text_number_cases (q : Option Quantity) :
    (Token.number q).text = "null".toList ∨ ∃ n : Numeral, n.WellFormed ∧ (Token.number q).text = n.text := by
  rcases q with _ | i | x
  · exact .inl rfl
  · exact .inr ⟨intNumeral i, intNumeral_wellFormed i, intText_eq i⟩
  · exact floatText_cases x

theorem lex_reread (t : Token) (rest : List Char) (hrest : Detached rest) :
    lex (t.text ++ rest) = (lex rest).map (t.reread :: ·) := by
  cases t with
  | number q =>
    rcases text_number_cases q with hnull | ⟨n, hn, htext⟩
    · rw [hnull, reread_number_of_null hnull]
      exact lex_text_append .null rfl rest
    · rw [htext, reread_number_of_numeral hn htext]
      exact lex_numeral n hn rest hrest
  | str s =>
    cases s with
    | none => exact lex_text_append .null rfl rest
    | some s => exact lex_text_append (.str (some s)) rfl rest
  | _ => exact lex_text_append _ rfl rest

theorem lex_reread_some (t : Token) {rest : List Char} {us : List Token} (hrest : Detached rest)
    (hlex : lex rest = some us) : lex (t.text ++ rest) = some (t.reread :: us) := by
  rw [lex_reread t rest hrest, hlex]
  rfl

theorem tokens_ofScalar_number (q : Option Quantity) (us : List Token) :
    tokens us (ofScalar (Token.number q).reread) = (Token.number q).reread :: us := by
  have hnumber (m : Option Quantity) : tokens us (ofScalar (.number m)) = .number m :: us := by
    rcases m with _ | i | x <;> rfl
  rcases text_number_cases q with hnull | ⟨n, hn, htext⟩
  · rw [reread_number_of_null hnull]
    rfl
  · rw [reread_number_of_numeral hn htext]
    exact hnumber n.value

theorem lex_number (q : Option Quantity) {rest : List Char} {us : List Token} (hrest : Detached rest)
    (hlex : lex rest = some us) :
    lex ((Token.number q).text ++ rest) = some (tokens us (ofScalar (Token.number q).reread)) := by
  rw [tokens_ofScalar_number]
  exact lex_reread_some (.number q) hrest hlex

theorem detached_tokensTail (rest : List Token) (vs : List Json) : Detached ((tokensTail rest vs).flatMap Token.text) := by
  cases vs <;> simp [Detached, tokensTail, Token.text]

theorem detached_tokensMembers (rest : List Token) (ms : List (String × Json)) :
    Detached ((tokensMembers rest ms).flatMap Token.text) := by
  cases ms <;> simp [Detached, tokensMembers, Token.text]

mutual

/-- The compact text of a value is read as the tokens of the reread value, in front of text that is read itself. -/
theorem lex_tokens {rest us : List Token} (hrest : Detached (rest.flatMap Token.text))
    (hlex : lex (rest.flatMap Token.text) = some us) : (v : Json) →
    lex ((tokens rest v).flatMap Token.text) = some (tokens us v.reread)
  | .null => lex_reread_some .null hrest hlex
  | .bool b => lex_reread_some (.bool b) hrest hlex
  | .str s => lex_reread_some (.str (some s)) hrest hlex
  | .int i => lex_number (some (.int i)) hrest hlex
  | .float x => lex_number (some (.float x)) hrest hlex
  | .unusable => lex_number none hrest hlex
  | .arr [] => by
    change lex (Token.openArray.text ++ (Token.closeArray.text ++ rest.flatMap Token.text)) = _
    rw [lex_text_append _ rfl, lex_text_append _ rfl, hlex]
    rfl
  | .arr (v :: vs) => by
    have hfirst := lex_tokens (detached_tokensTail rest vs) (lex_tokensTail hlex vs) v
    change lex (Token.openArray.text ++ (tokens (tokensTail rest vs) v).flatMap Token.text) = _
    rw [lex_text_append _ rfl, hfirst]
    rfl
  | .obj [] => by
    change lex (Token.openObject.text ++ (Token.closeObject.text ++ rest.flatMap Token.text)) = _
    rw [lex_text_append _ rfl, lex_text_append _ rfl, hlex]
    rfl
  | .obj ((k, v) :: ms) => by
    have hfirst := lex_tokens (detached_tokensMembers rest ms) (lex_tokensMembers hlex ms) v
    change lex (Token.openObject.text ++ ((Token.str (some k)).text ++ (Token.colon.text ++
      (tokens (tokensMembers rest ms) v).flatMap Token.text))) = _
    rw [lex_text_append _ rfl, lex_text_append _ rfl, lex_text_append _ rfl, hfirst]
    rfl

theorem lex_tokensTail {rest us : List Token} (hlex : lex (rest.flatMap Token.text) = some us) : (vs : List Json) →
    lex ((tokensTail rest vs).flatMap Token.text) = some (tokensTail us (rereadAll vs))
  | [] => by
    change lex (Token.closeArray.text ++ rest.flatMap Token.text) = _
    rw [lex_text_append _ rfl, hlex]
    rfl
  | v :: vs => by
    have hfirst := lex_tokens (detached_tokensTail rest vs) (lex_tokensTail hlex vs) v
    change lex (Token.comma.text ++ (tokens (tokensTail rest vs) v).flatMap Token.text) = _
    rw [lex_text_append _ rfl, hfirst]
    rfl

theorem lex_tokensMembers {rest us : List Token} (hlex : lex (rest.flatMap Token.text) = some us) :
    (ms : List (String × Json)) →
    lex ((tokensMembers rest ms).flatMap Token.text) = some (tokensMembers us (rereadMembers ms))
  | [] => by
    change lex (Token.closeObject.text ++ rest.flatMap Token.text) = _
    rw [lex_text_append _ rfl, hlex]
    rfl
  | (k, v) :: ms => by
    have hfirst := lex_tokens (detached_tokensMembers rest ms) (lex_tokensMembers hlex ms) v
    change lex (Token.comma.text ++ ((Token.str (some k)).text ++ (Token.colon.text ++
      (tokens (tokensMembers rest ms) v).flatMap Token.text))) = _
    rw [lex_text_append _ rfl, lex_text_append _ rfl, lex_text_append _ rfl, hfirst]
    rfl

end

theorem lex_blank {c : Char} (h : isBlank c = true) (cs : List Char) : lex (c :: cs) = lex cs := by
  rw [lex, if_pos h]

theorem lex_newline (level : Nat) (cs : List Char) : lex (newline level ++ cs) = lex cs := by
  have hblanks (n : Nat) : lex (List.replicate n ' ' ++ cs) = lex cs := by
    induction n with
    | zero => rfl
    | succ n ih => rw [List.replicate_succ, List.cons_append, lex_blank rfl, ih]
  rw [newline, List.cons_append, lex_blank rfl, hblanks]

theorem detached_indentedTail (level : Nat) (rest : List Char) (vs : List Json) :
    Detached (indentedTail level rest vs) := by
  cases vs <;> simp [Detached, indentedTail, newline]

theorem detached_indentedMembers (level : Nat) (rest : List Char) (ms : List (String × Json)) :
    Detached (indentedMembers level rest ms) := by
  cases ms <;> simp [Detached, indentedMembers, newline]

theorem lex_name (k : String) (cs : List Char) :
    lex (stringText k ++ (':' :: ' ' :: cs)) = (lex cs).map fun ts => .str (some k) :: .colon :: ts := by
  change lex ((Token.str (some k)).text ++ (Token.colon.text ++ (' ' :: cs))) = _
  rw [lex_text_append _ rfl, lex_text_append _ rfl, lex_blank rfl, Option.map_map]
  rfl

mutual

/-- The indented text of a value is read as its compact text is. -/
theorem lex_indented (level : Nat) {rest : List Char} {us : List Token} (hrest : Detached rest)
    (hlex : lex rest = some us) : (v : Json) → lex (indented level rest v) = some (tokens us v.reread)
  | .null => lex_reread_some .null hrest hlex
  | .bool b => by
    change lex ((Token.bool b).text ++ [] ++ rest) = _
    rw [List.append_nil]
    exact lex_reread_some (.bool b) hrest hlex
  | .str s => by
    change lex ((Token.str (some s)).text ++ [] ++ rest) = _
    rw [List.append_nil]
    exact lex_reread_some (.str (some s)) hrest hlex
  | .int i => by
    change lex ((Token.number (some (.int i))).text ++ [] ++ rest) = _
    rw [List.append_nil]
    exact lex_number (some (.int i)) hrest hlex
  | .float x => by
    change lex ((Token.number (some (.float x))).text ++ [] ++ rest) = _
    rw [List.append_nil]
    exact lex_number (some (.float x)) hrest hlex
  | .unusable => by
    change lex ((Token.number none).text ++ [] ++ rest) = _
    rw [List.append_nil]
    exact lex_number none hrest hlex
  | .arr [] => by
    change lex (Token.openArray.text ++ (Token.closeArray.text ++ rest)) = _
    rw [lex_text_append _ rfl, lex_text_append _ rfl, hlex]
    rfl
  | .arr (v :: vs) => by
    have hfirst := lex_indented (level + 1) (detached_indentedTail level rest vs) (lex_indentedTail level hlex vs) v
    change lex (Token.openArray.text ++ (newline (level + 1) ++ indented (level + 1) (indentedTail level rest vs) v)) = _
    rw [lex_text_append _ rfl, lex_newline, hfirst]
    rfl
  | .obj [] => by
    change lex (Token.openObject.text ++ (Token.closeObject.text ++ rest)) = _
    rw [lex_text_append _ rfl, lex_text_append _ rfl, hlex]
    rfl
  | .obj ((k, v) :: ms) => by
    have hfirst := lex_indented (level + 1) (detached_indentedMembers level rest ms) (lex_indentedMembers level hlex ms) v
    change lex (Token.openObject.text ++ (newline (level + 1) ++ (stringText k ++ (':' :: ' ' ::
      indented (level + 1) (indentedMembers level rest ms) v)))) = _
    rw [lex_text_append _ rfl, lex_newline, lex_name, hfirst]
    rfl

theorem lex_indentedTail (level : Nat) {rest : List Char} {us : List Token} (hlex : lex rest = some us) :
    (vs : List Json) → lex (indentedTail level rest vs) = some (tokensTail us (rereadAll vs))
  | [] => by
    change lex (newline level ++ (Token.closeArray.text ++ rest)) = _
    rw [lex_newline, lex_text_append _ rfl, hlex]
    rfl
  | v :: vs => by
    have hfirst := lex_indented (level + 1) (detached_indentedTail level rest vs) (lex_indentedTail level hlex vs) v
    change lex (Token.comma.text ++ (newline (level + 1) ++ indented (level + 1) (indentedTail level rest vs) v)) = _
    rw [lex_text_append _ rfl, lex_newline, hfirst]
    rfl

theorem lex_indentedMembers (level : Nat) {rest : List Char} {us : List Token} (hlex : lex rest = some us) :
    (ms : List (String × Json)) → lex (indentedMembers level rest ms) = some (tokensMembers us (rereadMembers ms))
  | [] => by
    change lex (newline level ++ (Token.closeObject.text ++ rest)) = _
    rw [lex_newline, lex_text_append _ rfl, hlex]
    rfl
  | (k, v) :: ms => by
    have hfirst := lex_indented (level + 1) (detached_indentedMembers level rest ms) (lex_indentedMembers level hlex ms) v
    change lex (Token.comma.text ++ (newline (level + 1) ++ (stringText k ++ (':' :: ' ' ::
      indented (level + 1) (indentedMembers level rest ms) v)))) = _
    rw [lex_text_append _ rfl, lex_newline, lex_name, hfirst]
    rfl

end

theorem parse?_of_lex {cs : List Char} {v : Json} (h : lex cs = some (tokens [] v)) :
    parse? (String.ofList cs) = some v := by
  rw [parse?, String.toList_ofList, h, Option.bind_some, readTokens_tokens]
  rfl

theorem parse?_compact_reread (v : Json) : parse? v.compact = some v.reread := by
  apply parse?_of_lex
  apply lex_tokens
  · exact detached_nil
  · rw [List.flatMap_nil, lex]

theorem parse?_pretty_reread (v : Json) : parse? v.pretty = some v.reread :=
  parse?_of_lex (lex_indented 0 detached_nil (by rw [lex]) v)

/-- Integers of 64 bits, with or without a sign, come back. -/
theorem reread_int (i : Int) (hlow : -(UInt64.size : Int) ≤ 2 * i) (hhigh : i < UInt64.size) :
    (Json.int i).reread = .int i := by
  have htext : (Token.number (some (.int i))).text = (intNumeral i).text := intText_eq i
  rw [reread, reread_number_of_numeral (intNumeral_wellFormed i) htext, value_intNumeral i hlow hhigh]
  rfl

end RightOfWay.Json
