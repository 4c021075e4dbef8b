import RightOfWay.Json.Value

namespace RightOfWay.Json

/-- A piece of a string: a character as it stands, or a 16-bit unit written as an escape. -/
inductive Piece where
  | char (c : Char)
  | unit (n : Nat)

def hexValue? (c : Char) : Option Nat :=
  if '0' ≤ c && c ≤ '9' then some (c.toNat - '0'.toNat)
  else if 'a' ≤ c && c ≤ 'f' then some (c.toNat - 'a'.toNat + 10)
  else if 'A' ≤ c && c ≤ 'F' then some (c.toNat - 'A'.toNat + 10)
  else none

/-- The unit that four hexadecimal digits stand for. -/
def unit? (a b c d : Char) : Option Nat :=
  match hexValue? a, hexValue? b, hexValue? c, hexValue? d with
  | some a, some b, some c, some d => some (((a * 16 + b) * 16 + c) * 16 + d)
  | _, _, _, _ => none

/-- The character that an escape of one letter stands for. -/
def shortEscape? : Char → Option Char
  | '"' => some '"'
  | '\\' => some '\\'
  | '/' => some '/'
  | 'b' => some '\x08'
  | 'f' => some '\x0c'
  | 'n' => some '\n'
  | 'r' => some '\r'
  | 't' => some '\t'
  | _ => none

/-- The pieces of a string up to its closing quote, and what follows the quote. -/
def scanPieces : List Char → Option (List Piece × List Char)
  | [] => none
  | '"' :: cs => some ([], cs)
  | '\\' :: 'u' :: a :: b :: c :: d :: cs =>
    match unit? a b c d with
    | none => none
    | some n => (scanPieces cs).map fun (ps, rest) => (.unit n :: ps, rest)
  | '\\' :: e :: cs =>
    match shortEscape? e with
    | none => none
    | some c => (scanPieces cs).map fun (ps, rest) => (.char c :: ps, rest)
  | c :: cs =>
    if c.toNat < 0x20 || c = '\\' then none
    else (scanPieces cs).map fun (ps, rest) => (.char c :: ps, rest)

/-- A leading and a trailing surrogate together stand for one character; a surrogate alone stands for
none, and then the string has no value. -/
def assemble : List Piece → Option (List Char)
  | [] => some []
  | .char c :: ps => (assemble ps).map (c :: ·)
  | [.unit n] => if 0xd800 ≤ n && n < 0xe000 then none else some [Char.ofNat n]
  | .unit n :: .char c :: ps =>
    if 0xd800 ≤ n && n < 0xe000 then none
    else (assemble ps).map fun cs => Char.ofNat n :: c :: cs
  | .unit n :: .unit m :: ps =>
    if 0xd800 ≤ n && n < 0xdc00 then
      if 0xdc00 ≤ m && m < 0xe000 then
        (assemble ps).map (Char.ofNat (0x10000 + (n - 0xd800) * 0x400 + (m - 0xdc00)) :: ·)
      else none
    else if 0xdc00 ≤ n && n < 0xe000 then none
    else (assemble (.unit m :: ps)).map (Char.ofNat n :: ·)

def scanString (cs : List Char) : Option (Option String × List Char) :=
  (scanPieces cs).map fun (ps, rest) => ((assemble ps).map String.ofList, rest)

def punctuation? : Char → Option Token
  | '[' => some .openArray
  | ']' => some .closeArray
  | '\x7b' => some .openObject
  | '\x7d' => some .closeObject
  | ',' => some .comma
  | ':' => some .colon
  | _ => none

def scanWord : List Char → Option (Token × List Char)
  | 'n' :: 'u' :: 'l' :: 'l' :: cs => some (.null, cs)
  | 't' :: 'r' :: 'u' :: 'e' :: cs => some (.bool true, cs)
  | 'f' :: 'a' :: 'l' :: 's' :: 'e' :: cs => some (.bool false, cs)
  | _ => none

/-- The token that starts with `c` and goes on in `cs`, and what follows it. -/
def scanToken (c : Char) (cs : List Char) : Option (Token × List Char) :=
  match punctuation? c with
  | some t => some (t, cs)
  | none =>
    if c = '"' then (scanString cs).map fun (s, rest) => (.str s, rest)
    else
      match scanWord (c :: cs) with
      | some r => some r
      | none => (scanNumber (c :: cs)).map fun (n, rest) => (.number n, rest)

def isBlank (c : Char) : Bool := c = ' ' || c = '\n' || c = '\t' || c = '\r'

theorem scanPieces_length {cs rest : List Char} {ps : List Piece}
    (h : scanPieces cs = some (ps, rest)) : rest.length ≤ cs.length := by
  fun_induction scanPieces cs generalizing ps rest with
  | case1 => cases h
  | case2 => cases h; simp
  | case3 => cases h
  | case4 a b c d cs n hu ih =>
    obtain ⟨⟨qs, r⟩, hq, he⟩ := Option.map_eq_some_iff.1 h
    cases he
    have := ih hq
    simp only [List.length_cons]
    omega
  | case5 => cases h
  | case6 e cs _ c hs ih =>
    obtain ⟨⟨qs, r⟩, hq, he⟩ := Option.map_eq_some_iff.1 h
    cases he
    have := ih hq
    simp only [List.length_cons]
    omega
  | case7 => cases h
  | case8 c cs _ _ _ hc ih =>
    obtain ⟨⟨qs, r⟩, hq, he⟩ := Option.map_eq_some_iff.1 h
    cases he
    have := ih hq
    simp only [List.length_cons]
    omega

theorem scanWord_length {cs rest : List Char} {t : Token} (h : scanWord cs = some (t, rest)) :
    rest.length < cs.length := by
  unfold scanWord at h
  split at h <;> cases h <;> simp only [List.length_cons] <;> omega

/-- A token takes at least one character. -/
theorem scanToken_length {c : Char} {cs rest : List Char} {t : Token}
    (h : scanToken c cs = some (t, rest)) : rest.length ≤ cs.length := by
  unfold scanToken at h
  split at h
  · cases h
    exact Nat.le_refl _
  · split at h
    · obtain ⟨⟨s, r⟩, hq, he⟩ := Option.map_eq_some_iff.1 h
      obtain ⟨⟨ps, r'⟩, hp, hr⟩ := Option.map_eq_some_iff.1 hq
      cases he
      cases hr
      exact scanPieces_length hp
    · split at h
      · rename_i hw
        cases h
        exact Nat.le_of_lt_succ (scanWord_length hw)
      · obtain ⟨⟨n, r⟩, hq, he⟩ := Option.map_eq_some_iff.1 h
        cases he
        exact Nat.le_of_lt_succ (scanNumber_length hq)

/-- The tokens of a text, if it is made of tokens and blanks only. -/
def lex : List Char → Option (List Token)
  | [] => some []
  | c :: cs =>
    if isBlank c then lex cs
    else
      match _h : scanToken c cs with
      | none => none
      | some (t, rest) => (lex rest).map (t :: ·)
termination_by cs => cs.length
decreasing_by
  · simp
  · exact Nat.lt_succ_of_le (scanToken_length (by assumption))

end RightOfWay.Json
