/-!
# Text

Text is a list of characters, so every scanner of the library is a recursion on a list. This module
holds the operations that the other modules share: blanks, cutting, joining, replacing, the order of
text, and decimal numerals.
-/
namespace StaticSite

/-- Text, one character after the other. -/
abbrev Text := List Char

/-- A string literal may stand wherever text is expected. -/
instance : Coe String Text := ⟨String.toList⟩

namespace Text

/-- The 25 characters with the Unicode property `White_Space`. -/
def isBlank (c : Char) : Bool :=
  let n := c.val.toNat
  (9 ≤ n && n ≤ 13) || n == 0x20 || n == 0x85 || n == 0xA0 || n == 0x1680 ||
    (0x2000 ≤ n && n ≤ 0x200A) || n == 0x2028 || n == 0x2029 || n == 0x202F || n == 0x205F ||
    n == 0x3000

def allBlank (t : Text) : Bool := t.all isBlank

def trimStart (t : Text) : Text := t.dropWhile isBlank

/-- The text without the longest run of characters of a class at its end. -/
def dropEndWhile (p : Char → Bool) (t : Text) : Text := (t.reverse.dropWhile p).reverse

def trimEnd (t : Text) : Text := dropEndWhile isBlank t

def trim (t : Text) : Text := trimEnd (trimStart t)

/-- The text without the runs of one character at both ends. -/
def trimChar (c : Char) (t : Text) : Text := dropEndWhile (· == c) (t.dropWhile (· == c))

/-- What follows a given beginning, when the text has it. -/
def after? : Text → Text → Option Text
  | [], t => some t
  | _ :: _, [] => none
  | p :: ps, c :: cs => if p = c then after? ps cs else none

def startsWith (start t : Text) : Bool := (after? start t).isSome

/-- What stands before a given ending, when the text has it. -/
def before? (ending t : Text) : Option Text := (after? ending.reverse t.reverse).map List.reverse

def endsWith (ending t : Text) : Bool := (before? ending t).isSome

/-- The text before and after the first occurrence of a part. -/
def cut? (part : Text) : Text → Option (Text × Text)
  | [] => if part.isEmpty then some ([], []) else none
  | c :: cs =>
    match after? part (c :: cs) with
    | some rest => some ([], rest)
    | none => (cut? part cs).map fun (left, right) => (c :: left, right)

def hasPart (part t : Text) : Bool := (cut? part t).isSome

/-- The pieces between the characters of a class; there is one more piece than such characters. -/
def splitBy (p : Char → Bool) : Text → List Text
  | [] => [[]]
  | c :: cs =>
    if p c then [] :: splitBy p cs
    else match splitBy p cs with
      | [] => [[c]]
      | piece :: pieces => (c :: piece) :: pieces

def splitOn (c : Char) (t : Text) : List Text := splitBy (· == c) t

def join (separator : Text) : List Text → Text
  | [] => []
  | [t] => t
  | t :: u :: ts => t ++ separator ++ join separator (u :: ts)

/-- The lines of a text. A line ends with a newline, which may follow a carriage return; both are
left out. Nothing follows the last newline. -/
def lines (t : Text) : List Text :=
  let pieces := splitOn '\n' t
  let ended := pieces.dropLast.map fun line => (before? ['\r'] line).getD line
  match pieces.getLast? with
  | none | some [] => ended
  | some last => ended ++ [last]

/-- Replaces from left to right the occurrences of a part that do not overlap; the counter skips the
characters of an occurrence that has been replaced. -/
def replaceFrom (part out : Text) : Nat → Text → Text
  | _, [] => []
  | skip + 1, _ :: cs => replaceFrom part out skip cs
  | 0, c :: cs =>
    if !part.isEmpty && startsWith part (c :: cs) then out ++ replaceFrom part out (part.length - 1) cs
    else c :: replaceFrom part out 0 cs

def replace (part out t : Text) : Text := replaceFrom part out 0 t

/-- Order by code points, which is also the order of the encoded bytes. -/
def before : Text → Text → Bool
  | [], [] => false
  | [], _ :: _ => true
  | _ :: _, [] => false
  | a :: as, b :: bs => a.val < b.val || (a == b && before as bs)

def isAsciiLetter (c : Char) : Bool := ('a' ≤ c && c ≤ 'z') || ('A' ≤ c && c ≤ 'Z')

def isAsciiUpper (c : Char) : Bool := 'A' ≤ c && c ≤ 'Z'

def isAsciiDigit (c : Char) : Bool := '0' ≤ c && c ≤ '9'

def isAsciiAlphanumeric (c : Char) : Bool := isAsciiLetter c || isAsciiDigit c

def asciiLowerChar (c : Char) : Char := if isAsciiUpper c then Char.ofNat (c.val.toNat + 32) else c

/-- The text with its ASCII capitals made small. -/
def asciiLower (t : Text) : Text := t.map asciiLowerChar

/-- The text in lower case, as far as that is ASCII. Besides the capitals, the Kelvin sign has an ASCII
letter in lower case. -/
def lower (t : Text) : Text := t.map fun c => if c == '\u212a' then 'k' else asciiLowerChar c

def hexDigit (n : Nat) : Char := if n < 10 then Char.ofNat (48 + n) else Char.ofNat (87 + n)

/-- The value of a hexadecimal digit of either case. -/
def hexValue? (c : Char) : Option Nat :=
  if isAsciiDigit c then some (c.val.toNat - 48)
  else if 'a' ≤ c && c ≤ 'f' then some (c.val.toNat - 87)
  else if 'A' ≤ c && c ≤ 'F' then some (c.val.toNat - 55)
  else none

/-- The value of a run of decimal digits. -/
def digitsValue (t : Text) : Nat := t.foldl (fun n c => 10 * n + (c.val.toNat - 48)) 0

def ofNat (n : Nat) : Text := Nat.toDigits 10 n

def ofInt (n : Int) : Text := if n < 0 then '-' :: ofNat n.natAbs else ofNat n.natAbs

/-- The text inside single quotes, as messages name a value. -/
def quoted (t : Text) : Text := "'" ++ t ++ "'"

theorem after?_append (start rest : Text) : after? start (start ++ rest) = some rest := by
  induction start with
  | nil => simp [after?]
  | cons c cs ih => simp [after?, ih]

theorem eq_append_of_after? {start t rest : Text} (h : after? start t = some rest) :
    t = start ++ rest := by
  fun_induction after? start t <;> simp_all

theorem splitBy_ne_nil (p : Char → Bool) (t : Text) : splitBy p t ≠ [] := by
  induction t with
  | nil => simp [splitBy]
  | cons c cs ih =>
    rw [splitBy]
    split
    · simp
    · split <;> simp

end Text

end StaticSite
