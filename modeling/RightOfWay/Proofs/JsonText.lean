import RightOfWay.Json.Reader
import Mathlib.Tactic.Common

namespace RightOfWay.Json

/-- What a written character is read as: itself, or a unit that is no surrogate. -/
inductive Piece.StandsFor : Piece → Char → Prop where
  | char (c : Char) : StandsFor (.char c) c
  | unit (c : Char) : c.toNat < 0xd800 → StandsFor (.unit c.toNat) c

theorem hexValue?_digitChar (n : Nat) (h : n < 16) : hexValue? (Nat.digitChar n) = some n := by
  revert h n
  decide

theorem unit?_hexPair (n : Nat) (h : n < 256) :
    unit? '0' '0' (Nat.digitChar (n / 16)) (Nat.digitChar (n % 16)) = some n := by
  have hzero : hexValue? '0' = some 0 := rfl
  have hhigh := hexValue?_digitChar (n / 16) (by omega)
  have hlow := hexValue?_digitChar (n % 16) (by omega)
  rw [unit?, hzero, hhigh, hlow]
  dsimp only
  congr 1
  omega

theorem scanPieces_plain (c : Char) (rest : List Char) (hquote : c ≠ '"') (hslash : c ≠ '\\')
    (hcontrol : ¬ c.toNat < 0x20) :
    scanPieces (c :: rest) = (scanPieces rest).map fun (ps, r) => (.char c :: ps, r) := by
  have hplain : ¬ (c.toNat < 0x20 || c = '\\') = true := by simp [hslash, Nat.not_lt.mp hcontrol]
  rw [scanPieces]
  · rw [if_neg hplain]
  all_goals simp_all

theorem scanPieces_escapeChar (c : Char) : ∃ p : Piece, p.StandsFor c ∧
    ∀ rest, scanPieces (escapeChar c ++ rest) = (scanPieces rest).map fun (ps, r) => (p :: ps, r) := by
  unfold escapeChar
  split
  · exact ⟨.char '"', .char _, fun rest => by simp [scanPieces, shortEscape?]⟩
  · exact ⟨.char '\\', .char _, fun rest => by simp [scanPieces, shortEscape?]⟩
  · exact ⟨.char '\x08', .char _, fun rest => by simp [scanPieces, shortEscape?]⟩
  · exact ⟨.char '\x0c', .char _, fun rest => by simp [scanPieces, shortEscape?]⟩
  · exact ⟨.char '\n', .char _, fun rest => by simp [scanPieces, shortEscape?]⟩
  · exact ⟨.char '\r', .char _, fun rest => by simp [scanPieces, shortEscape?]⟩
  · exact ⟨.char '\t', .char _, fun rest => by simp [scanPieces, shortEscape?]⟩
  · rename_i hquote hslash _ _ _ _ _
    by_cases hcontrol : c.toNat < 0x20
    · refine ⟨.unit c.toNat, .unit c (by omega), fun rest => ?_⟩
      have hunit := unit?_hexPair c.toNat (by omega)
      rw [if_pos hcontrol, hexPair]
      simp [scanPieces, hunit]
    · refine ⟨.char c, .char c, fun rest => ?_⟩
      rw [if_neg hcontrol]
      exact scanPieces_plain c rest hquote hslash hcontrol

theorem Piece.StandsFor.assemble_cons {p : Piece} {c : Char} (h : p.StandsFor c) (ps : List Piece) :
    assemble (p :: ps) = (assemble ps).map (c :: ·) := by
  cases h with
  | char c => rw [assemble]
  | unit c hc =>
    have hchar : Char.ofNat c.toNat = c := Char.ofNat_toNat c
    have hlead : ¬ 0xd800 ≤ c.toNat := by omega
    have htrail : ¬ 0xdc00 ≤ c.toNat := by omega
    rcases ps with _ | ⟨d | m, ps⟩
    · simp [assemble, hchar, hlead]
    · rw [assemble, assemble, hchar]
      cases assemble ps <;> simp [hlead]
    · rw [assemble]
      simp [hchar, hlead, htrail]

theorem scanPieces_escaped (cs rest : List Char) :
    ∃ ps, scanPieces (cs.flatMap escapeChar ++ '"' :: rest) = some (ps, rest) ∧ assemble ps = some cs := by
  induction cs with
  | nil => exact ⟨[], by simp [scanPieces], rfl⟩
  | cons c cs ih =>
    obtain ⟨ps, hscan, hassemble⟩ := ih
    obtain ⟨p, hp, hfirst⟩ := scanPieces_escapeChar c
    refine ⟨p :: ps, ?_, ?_⟩
    · rw [List.flatMap_cons, List.append_assoc, hfirst, hscan]
      rfl
    · rw [hp.assemble_cons, hassemble]
      rfl

theorem scanString_escaped (s : String) (rest : List Char) :
    scanString (s.toList.flatMap escapeChar ++ '"' :: rest) = some (some s, rest) := by
  obtain ⟨ps, hscan, hassemble⟩ := scanPieces_escaped s.toList rest
  rw [scanString, hscan]
  simp [hassemble]

/-- Whether a token ends by itself, so that nothing behind it can become a part of it. -/
def Token.isClosed : Token → Bool
  | .number _ => false
  | .str none => false
  | _ => true

theorem lex_of_scanToken {c : Char} {cs rest : List Char} {t : Token} (hblank : isBlank c = false)
    (h : scanToken c cs = some (t, rest)) : lex (c :: cs) = (lex rest).map (t :: ·) := by
  rw [lex, hblank, if_neg Bool.false_ne_true]
  split
  · simp_all
  · simp_all

theorem lex_text_append (t : Token) (ht : t.isClosed = true) (cs : List Char) :
    lex (t.text ++ cs) = (lex cs).map (t :: ·) := by
  cases t with
  | number n => cases ht
  | str s =>
    cases s with
    | none => cases ht
    | some s =>
      have hscan : scanToken '"' (s.toList.flatMap escapeChar ++ '"' :: cs) = some (.str (some s), cs) := by
        simp [scanToken, punctuation?, scanString_escaped]
      rw [← lex_of_scanToken rfl hscan, Token.text, stringText, List.cons_append, List.append_assoc]
      rfl
  | bool b => cases b <;> exact lex_of_scanToken rfl rfl
  | _ => exact lex_of_scanToken rfl rfl

theorem lex_flatMap_text (ts : List Token) (h : ∀ t ∈ ts, t.isClosed = true) :
    lex (ts.flatMap Token.text) = some ts := by
  induction ts with
  | nil => rw [List.flatMap_nil, lex]
  | cons t ts ih =>
    rw [List.flatMap_cons, lex_text_append t (h t (by simp)), ih fun t' ht' => h t' (by simp [ht'])]
    rfl

/-- Members as they are kept while their object is open: last first. -/
def held (ms : List (String × Json)) : Members := ms.reverse.map fun m => (some m.1, m.2)

theorem held_append (ms : List (String × Json)) (k : String) (v : Json) :
    held (ms ++ [(k, v)]) = (some k, v) :: held ms := by
  simp [held]

theorem named?_map (ms after : List (String × Json)) :
    named? (ms.map fun m => (some m.1, m.2)) after = some (ms.reverse ++ after) := by
  induction ms generalizing after with
  | nil => rfl
  | cons m ms ih =>
    rw [List.map_cons, named?, ih]
    simp

theorem ofMembers_held (ms : List (String × Json)) : ofMembers (held ms) = .obj ms := by
  rw [ofMembers, held, named?_map]
  simp

/-- A value does not start with a closing bracket, so the first element of an array is read like any other. -/
theorem readTokens_firstElement (stack : List Frame) (rest : List Token) (v : Json) :
    readTokens stack .firstElement (tokens rest v) = readTokens (.array [] :: stack) .value (tokens rest v) := by
  cases v with
  | arr vs => cases vs <;> rfl
  | obj ms => rcases ms with _ | ⟨⟨k, v⟩, ms⟩ <;> rfl
  | _ => rfl

mutual

/-- Where a value is due, its tokens are read as the value, whatever is open and whatever follows. -/
theorem readTokens_tokens (stack : List Frame) (rest : List Token) : (v : Json) →
    readTokens stack .value (tokens rest v) = readTokens stack (.after v) rest
  | .null => rfl
  | .bool _ => rfl
  | .int _ => rfl
  | .float _ => rfl
  | .str _ => rfl
  | .unusable => rfl
  | .arr [] => rfl
  | .arr (v :: vs) => by
    change readTokens stack .firstElement (tokens (tokensTail rest vs) v) = _
    rw [readTokens_firstElement, readTokens_tokens, readTokens_tokensTail]
    rfl
  | .obj [] => rfl
  | .obj ((k, v) :: ms) => by
    change readTokens (.object (held []) k :: stack) .value (tokens (tokensMembers rest ms) v) = _
    rw [readTokens_tokens, readTokens_tokensMembers]
    rfl

theorem readTokens_tokensTail (stack : List Frame) (rest : List Token) (before : List Json) (v : Json) :
    (vs : List Json) → readTokens (.array before :: stack) (.after v) (tokensTail rest vs) =
      readTokens stack (.after (.arr (before.reverse ++ v :: vs))) rest
  | [] => by
    change readTokens stack (.after (.arr (v :: before).reverse)) rest = _
    rw [List.reverse_cons]
  | w :: ws => by
    change readTokens (.array (v :: before) :: stack) .value (tokens (tokensTail rest ws) w) = _
    rw [readTokens_tokens, readTokens_tokensTail, List.reverse_cons, List.append_assoc]
    rfl

theorem readTokens_tokensMembers (stack : List Frame) (rest : List Token) (before : List (String × Json))
    (k : String) (v : Json) : (ms : List (String × Json)) →
    readTokens (.object (held before) k :: stack) (.after v) (tokensMembers rest ms) =
      readTokens stack (.after (.obj (before ++ (k, v) :: ms))) rest
  | [] => by
    change readTokens stack (.after (ofMembers ((some k, v) :: held before))) rest = _
    rw [← held_append, ofMembers_held]
  | (k', w) :: ms => by
    change readTokens (.object ((some k, v) :: held before) k' :: stack) .value (tokens (tokensMembers rest ms) w) = _
    rw [readTokens_tokens, ← held_append, readTokens_tokensMembers, List.append_assoc]
    rfl

end

/-- Text without numbers is read back as the value it was written for. -/
theorem parse?_compact (v : Json) (h : ∀ t ∈ tokens [] v, t.isClosed = true) : parse? v.compact = some v := by
  rw [parse?, compact, String.toList_ofList, lex_flatMap_text _ h, Option.bind_some, readTokens_tokens]
  rfl

end RightOfWay.Json
