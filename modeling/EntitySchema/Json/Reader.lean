import EntitySchema.Json.Basic

/-!
Reading JSON as RFC 8259 defines it, keeping the order of members and the text of numbers. Bytes
inside strings are taken as they are; a surrogate escape without its partner reads as U+FFFD.
-/

namespace EntitySchema.Json

def isBlank (byte : Byte) : Bool :=
  byte = 0x20 || byte = 0x09 || byte = 0x0A || byte = 0x0D

def skipBlanks (text : Text) : Text := text.dropWhile isBlank

def trimBlanks (text : Text) : Text := (skipBlanks (skipBlanks text).reverse).reverse

def readHex4? : Text → Option (Nat × Text)
  | first :: second :: third :: fourth :: rest => do
    let a ← Text.hexValue? first
    let b ← Text.hexValue? second
    let c ← Text.hexValue? third
    let d ← Text.hexValue? fourth
    some (((a * 16 + b) * 16 + c) * 16 + d, rest)
  | _ => none

def isHighSurrogate (code : Nat) : Bool := 0xD800 ≤ code && code < 0xDC00

def isLowSurrogate (code : Nat) : Bool := 0xDC00 ≤ code && code < 0xE000

def encodeCode (code : Nat) : Text :=
  Text.ofChars [if code.isValidChar then Char.ofNat code else Rune.replacement]

def readLowSurrogate? : Text → Option (Nat × Text)
  | 0x5C :: 0x75 :: rest =>
    match readHex4? rest with
    | some (code, rest) => if isLowSurrogate code then some (code, rest) else none
    | none => none
  | _ => none

def simpleEscape? (byte : Byte) : Option Byte :=
  match byte with
  | 0x22 => some 0x22
  | 0x5C => some 0x5C
  | 0x2F => some 0x2F
  | 0x62 => some 0x08
  | 0x66 => some 0x0C
  | 0x6E => some 0x0A
  | 0x72 => some 0x0D
  | 0x74 => some 0x09
  | _ => none

/-- The rest of a string after its opening quote; `done` holds the bytes so far in reverse. -/
def readString? : (fuel : Nat) → (done : Text) → Text → Option (Text × Text)
  | 0, _, _ => none
  | _ + 1, _, [] => none
  | _ + 1, done, 0x22 :: rest => some (done.reverse, rest)
  | fuel + 1, done, 0x5C :: 0x75 :: rest =>
    match readHex4? rest with
    | none => none
    | some (code, rest) =>
      match isHighSurrogate code, readLowSurrogate? rest with
      | true, some (low, rest) =>
        let code := 0x10000 + (code - 0xD800) * 0x400 + (low - 0xDC00)
        readString? fuel ((encodeCode code).reverse ++ done) rest
      | _, _ => readString? fuel ((encodeCode code).reverse ++ done) rest
  | fuel + 1, done, 0x5C :: escaped :: rest =>
    match simpleEscape? escaped with
    | none => none
    | some byte => readString? fuel (byte :: done) rest
  | fuel + 1, done, byte :: rest =>
    if byte < 0x20 || byte = 0x5C then none else readString? fuel (byte :: done) rest

def readDigits? (text : Text) : Option (Text × Text) :=
  let digits := text.takeWhile Text.isAsciiDigit
  if digits.isEmpty then none else some (digits, text.dropWhile Text.isAsciiDigit)

def readWhole? (text : Text) : Option (Text × Text) :=
  match text with
  | 0x30 :: rest => some ([0x30], rest)
  | _ => readDigits? text

def readFraction? (text : Text) : Option (Text × Text) :=
  match text with
  | 0x2E :: rest => (readDigits? rest).map fun (digits, rest) => (0x2E :: digits, rest)
  | _ => some ([], text)

def readExponent? (text : Text) : Option (Text × Text) :=
  match text with
  | mark :: rest =>
    if mark = 0x65 || mark = 0x45 then
      let (sign, rest) : Text × Text := match rest with
        | 0x2B :: rest => ([0x2B], rest)
        | 0x2D :: rest => ([0x2D], rest)
        | rest => ([], rest)
      (readDigits? rest).map fun (digits, rest) => (mark :: sign ++ digits, rest)
    else some ([], text)
  | [] => some ([], [])

def readNumber? (text : Text) : Option (Text × Text) := do
  let (sign, rest) : Text × Text := match text with
    | 0x2D :: rest => ([0x2D], rest)
    | text => ([], text)
  let (whole, rest) ← readWhole? rest
  let (fraction, rest) ← readFraction? rest
  let (exponent, rest) ← readExponent? rest
  some (sign ++ whole ++ fraction ++ exponent, rest)

def greatestDepth : Nat := 10000

mutual

/--
One value and what follows it, with at most `depth` levels of arrays and objects. The fuel bounds
the number of steps.
-/
def readValue? : (fuel depth : Nat) → Text → Option (Json × Text)
  | 0, _, _ => none
  | fuel + 1, depth, text =>
    match skipBlanks text with
    | [] => none
    | 0x22 :: rest =>
      (readString? (rest.length + 1) [] rest).map fun (text, rest) => (.string text, rest)
    | 0x5B :: rest =>
      match depth, skipBlanks rest with
      | 0, _ => none
      | _ + 1, 0x5D :: rest => some (.array [], rest)
      | depth + 1, rest =>
        (readItems? fuel depth [] rest).map fun (items, rest) => (.array items, rest)
    | 0x7B :: rest =>
      match depth, skipBlanks rest with
      | 0, _ => none
      | _ + 1, 0x7D :: rest => some (.object [], rest)
      | depth + 1, rest =>
        (readMembers? fuel depth [] rest).map fun (members, rest) => (.object members, rest)
    | text =>
      match Text.dropPrefix? (utf8 "null") text with
      | some rest => some (.null, rest)
      | none =>
        match Text.dropPrefix? (utf8 "true") text with
        | some rest => some (.boolean true, rest)
        | none =>
          match Text.dropPrefix? (utf8 "false") text with
          | some rest => some (.boolean false, rest)
          | none => (readNumber? text).map fun (digits, rest) => (.number digits, rest)

def readItems? : (fuel depth : Nat) → (done : List Json) → Text → Option (List Json × Text)
  | 0, _, _, _ => none
  | fuel + 1, depth, done, text =>
    match readValue? fuel depth text with
    | none => none
    | some (item, rest) =>
      match skipBlanks rest with
      | 0x2C :: rest => readItems? fuel depth (item :: done) rest
      | 0x5D :: rest => some ((item :: done).reverse, rest)
      | _ => none

def readMembers? : (fuel depth : Nat) → (done : List (Text × Json)) → Text →
    Option (List (Text × Json) × Text)
  | 0, _, _, _ => none
  | fuel + 1, depth, done, text =>
    match skipBlanks text with
    | 0x22 :: rest =>
      match readString? (rest.length + 1) [] rest with
      | none => none
      | some (key, rest) =>
        match skipBlanks rest with
        | 0x3A :: rest =>
          match readValue? fuel depth rest with
          | none => none
          | some (value, rest) =>
            match skipBlanks rest with
            | 0x2C :: rest => readMembers? fuel depth ((key, value) :: done) rest
            | 0x7D :: rest => some (((key, value) :: done).reverse, rest)
            | _ => none
        | _ => none
    | _ => none

end

def read? (text : Text) : Option Json :=
  match readValue? (2 * text.length + 2) greatestDepth text with
  | some (value, rest) => if (skipBlanks rest).isEmpty then some value else none
  | none => none

end EntitySchema.Json
