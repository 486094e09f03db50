import StaticSite.Text

/-!
# Text as bytes

The UTF-8 form of a text, and the reading of bytes as text, which fails on bytes that are not the form
of any text.
-/
namespace StaticSite.Text

/-- The bytes of one character, as numbers below 256. -/
def charBytes (c : Char) : List Nat :=
  let n := c.val.toNat
  if n < 0x80 then [n]
  else if n < 0x800 then [0xC0 + n / 0x40, 0x80 + n % 0x40]
  else if n < 0x10000 then [0xE0 + n / 0x1000, 0x80 + n / 0x40 % 0x40, 0x80 + n % 0x40]
  else [0xF0 + n / 0x40000, 0x80 + n / 0x1000 % 0x40, 0x80 + n / 0x40 % 0x40, 0x80 + n % 0x40]

def bytes (t : Text) : List UInt8 := (t.flatMap charBytes).map Nat.toUInt8

/-- The payload of a continuation byte. -/
def continuation? (b : UInt8) : Option Nat :=
  if 0x80 ≤ b && b < 0xC0 then some (b.toNat - 0x80) else none

/-- A character from its code point, when the code point is the least one for its number of bytes and
is a character at all. -/
def charFrom? (least n : Nat) : Option Char :=
  if n < least then none else if n.isValidChar then some (Char.ofNat n) else none

/-- The text that the bytes encode, if they encode one. -/
def ofBytes? : List UInt8 → Option Text
  | [] => some []
  | a :: rest =>
    if a < 0x80 then (ofBytes? rest).map (Char.ofNat a.toNat :: ·)
    else match rest with
      | [] => none
      | b :: rest =>
        match continuation? b with
        | none => none
        | some y =>
          if 0xC0 ≤ a && a < 0xE0 then do
            let c ← charFrom? 0x80 ((a.toNat - 0xC0) * 0x40 + y)
            (ofBytes? rest).map (c :: ·)
          else match rest with
            | [] => none
            | d :: rest =>
              match continuation? d with
              | none => none
              | some z =>
                if 0xE0 ≤ a && a < 0xF0 then do
                  let c ← charFrom? 0x800 (((a.toNat - 0xE0) * 0x40 + y) * 0x40 + z)
                  (ofBytes? rest).map (c :: ·)
                else match rest with
                  | [] => none
                  | e :: rest =>
                    match continuation? e with
                    | none => none
                    | some w =>
                      if 0xF0 ≤ a && a < 0xF8 then do
                        let c ← charFrom? 0x10000
                          ((((a.toNat - 0xF0) * 0x40 + y) * 0x40 + z) * 0x40 + w)
                        (ofBytes? rest).map (c :: ·)
                      else none

/-! ## Reading whatever can be read -/

/-- Of a first byte of several: the bounds of the byte after it, how many bytes follow, and its payload. -/
def lead? (a : UInt8) : Option (UInt8 × UInt8 × Nat × Nat) :=
  if 0xC2 ≤ a && a < 0xE0 then some (0x80, 0xBF, 1, a.toNat - 0xC0)
  else if a == 0xE0 then some (0xA0, 0xBF, 2, 0)
  else if a == 0xED then some (0x80, 0x9F, 2, 13)
  else if 0xE1 ≤ a && a < 0xF0 then some (0x80, 0xBF, 2, a.toNat - 0xE0)
  else if a == 0xF0 then some (0x90, 0xBF, 3, 0)
  else if a == 0xF4 then some (0x80, 0x8F, 3, 4)
  else if 0xF1 ≤ a && a < 0xF4 then some (0x80, 0xBF, 3, a.toNat - 0xF0)
  else none

/-- Goes over continuation bytes: the code point that they complete, if all of them are there. -/
def completed (n : Nat) : Nat → List UInt8 → Option Nat × List UInt8
  | 0, rest => (some n, rest)
  | _ + 1, [] => (none, [])
  | more + 1, b :: rest =>
    match continuation? b with
    | some payload => completed (n * 0x40 + payload) more rest
    | none => (none, b :: rest)

def replacement : Char := '\ufffd'

def readAnyFrom : Nat → List UInt8 → Text
  | 0, _ => []
  | _, [] => []
  | fuel + 1, a :: rest =>
    if a < 0x80 then Char.ofNat a.toNat :: readAnyFrom fuel rest
    else match lead? a, rest with
      | some (least, greatest, more, payload), b :: _ =>
        if least ≤ b && b ≤ greatest then
          let (n, rest) := completed payload more rest
          ((n.map Char.ofNat).getD replacement) :: readAnyFrom fuel rest
        else replacement :: readAnyFrom fuel rest
      | _, _ => replacement :: readAnyFrom fuel rest

/-- The text of bytes with a replacement character for each run of bytes that starts a character but does
not end it, and for each byte that starts none. -/
def ofAnyBytes (bytes : List UInt8) : Text := readAnyFrom bytes.length bytes

end StaticSite.Text
