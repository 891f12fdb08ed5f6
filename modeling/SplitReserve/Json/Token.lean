/-!
# JSON tokens

A lexer takes the characters one by one.  It holds the tokens found so far and the beginning of the next one; a number or a word
ends at the first character that cannot go on with it, which then begins what follows.
-/

namespace SplitReserve.Json

inductive Token
  | openArray
  | closeArray
  | openObject
  | closeObject
  | comma
  | colon
  | null
  | bool (b : Bool)
  | number (digits : List Char)
  | text (units : List Nat)
  deriving DecidableEq

/-! ### Numbers -/

def isDigit (c : Char) : Bool := '0' ≤ c && c ≤ '9'

def skipDigits (cs : List Char) : List Char := cs.dropWhile isDigit

/-- The rest of a number from its exponent on. -/
def isExponent : List Char → Bool
  | [] => true
  | e :: cs =>
    let cs := match cs with
      | '+' :: ds => ds
      | '-' :: ds => ds
      | ds => ds
    (e = 'e' || e = 'E') && cs.head?.any isDigit && (skipDigits cs).isEmpty

/-- The rest of a number from its point on. -/
def isFraction : List Char → Bool
  | '.' :: cs => cs.head?.any isDigit && isExponent (skipDigits cs)
  | cs => isExponent cs

/-- A number without its sign; no digit follows a leading zero. -/
def isUnsigned : List Char → Bool
  | '0' :: cs => isFraction cs
  | c :: cs => isDigit c && isFraction (skipDigits cs)
  | [] => false

def isNumber : List Char → Bool
  | '-' :: cs => isUnsigned cs
  | cs => isUnsigned cs

/-! ### The lexer -/

/-- The token that has begun; characters and units are kept in reverse. -/
inductive Partial
  | none
  | word (cs : List Char)
  | number (cs : List Char)
  | text (units : List Nat)
  /-- Within a text, after a backslash. -/
  | escape (units : List Nat)
  /-- Within a text, with `left` digits of a code to come. -/
  | code (units : List Nat) (value left : Nat)

/-- The tokens found, the latest first, and the one that has begun. -/
structure Lexer where
  tokens : List Token
  current : Partial

namespace Lexer

def start : Lexer := ⟨[], .none⟩

def isBlank (c : Char) : Bool := c = ' ' || c = '\t' || c = '\n' || c = '\r'

def isNumberChar (c : Char) : Bool := isDigit c || c = '-' || c = '+' || c = '.' || c = 'e' || c = 'E'

def isWordChar (c : Char) : Bool := 'a' ≤ c && c ≤ 'z'

def ofWord (cs : List Char) : Option Token :=
  if cs = ['n', 'u', 'l', 'l'] then some .null
  else if cs = ['t', 'r', 'u', 'e'] then some (.bool true)
  else if cs = ['f', 'a', 'l', 's', 'e'] then some (.bool false)
  else none

def ofNumber (cs : List Char) : Option Token := if isNumber cs then some (.number cs) else none

/-- Begin a token. -/
def begin (tokens : List Token) (c : Char) : Option Lexer :=
  match c with
  | '[' => some ⟨.openArray :: tokens, .none⟩
  | ']' => some ⟨.closeArray :: tokens, .none⟩
  | '\x7b' => some ⟨.openObject :: tokens, .none⟩
  | '\x7d' => some ⟨.closeObject :: tokens, .none⟩
  | ',' => some ⟨.comma :: tokens, .none⟩
  | ':' => some ⟨.colon :: tokens, .none⟩
  | '"' => some ⟨tokens, .text []⟩
  | c =>
    if isBlank c then some ⟨tokens, .none⟩
    else if isDigit c || c = '-' then some ⟨tokens, .number [c]⟩
    else if isWordChar c then some ⟨tokens, .word [c]⟩
    else none

/-- The unit that a one-letter escape stands for. -/
def escaped? (c : Char) : Option Nat :=
  match c with
  | '"' => some 34
  | '\\' => some 92
  | '/' => some 47
  | 'b' => some 8
  | 'f' => some 12
  | 'n' => some 10
  | 'r' => some 13
  | 't' => some 9
  | _ => none

def hexValue? (c : Char) : Option Nat :=
  if isDigit c then some (c.toNat - 48)
  else if 'a' ≤ c ∧ c ≤ 'f' then some (c.toNat - 87)
  else if 'A' ≤ c ∧ c ≤ 'F' then some (c.toNat - 55)
  else none

/-- Take one character. -/
def step (l : Lexer) (c : Char) : Option Lexer :=
  match l.current with
  | .none => begin l.tokens c
  | .word cs =>
    if isWordChar c then some { l with current := .word (c :: cs) }
    else do begin ((← ofWord cs.reverse) :: l.tokens) c
  | .number cs =>
    if isNumberChar c then some { l with current := .number (c :: cs) }
    else do begin ((← ofNumber cs.reverse) :: l.tokens) c
  | .text units =>
    if c = '"' then some ⟨.text units.reverse :: l.tokens, .none⟩
    else if c = '\\' then some { l with current := .escape units }
    else if c.toNat < 32 then none
    else some { l with current := .text (c.toNat :: units) }
  | .escape units =>
    if c = 'u' then some { l with current := .code units 0 4 }
    else do return { l with current := .text ((← escaped? c) :: units) }
  | .code units value left => do
    let value := 16 * value + (← hexValue? c)
    if left = 1 then return { l with current := .text (value :: units) }
    return { l with current := .code units value (left - 1) }

/-- End the text. -/
def finish (l : Lexer) : Option (List Token) :=
  match l.current with
  | .none => some l.tokens.reverse
  | .word cs => do return ((← ofWord cs.reverse) :: l.tokens).reverse
  | .number cs => do return ((← ofNumber cs.reverse) :: l.tokens).reverse
  | .text _ | .escape _ | .code .. => none

end Lexer

/-- The tokens of a text. -/
def Token.ofChars? (cs : List Char) : Option (List Token) := do
  let l ← cs.foldlM Lexer.step Lexer.start
  l.finish

end SplitReserve.Json
