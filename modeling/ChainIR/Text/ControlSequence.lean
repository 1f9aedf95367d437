/-! # Control sequences in text

A control sequence starts with the escape character and tells a terminal to do something other
than to show text. `withoutControls` is a text as it stands in a file: white space and visible
characters, without control sequences and without other control characters. White space
interrupts a sequence that is not complete: it is kept, and so is the text behind it, until a
control character resumes the sequence. A character beyond ASCII in that text drops the sequence
for good. A string for a device goes on until its terminator, whatever stands in it. -/

namespace ChainIR.ControlSequence

/-- A sequence that is not complete and that white space may interrupt. -/
inductive Opening
  /-- The escape character. -/
  | escape
  /-- The escape character and intermediate characters. -/
  | intermediate
  /-- The start of a sequence of parameters that one letter ends. -/
  | parameters
  deriving DecidableEq

/-- How far a control sequence has been read. -/
inductive Progress
  /-- Outside of control sequences. -/
  | text
  /-- Behind the opening of a sequence. -/
  | within (opening : Opening)
  /-- In text that has interrupted a sequence behind its opening. -/
  | interrupted (opening : Opening)
  /-- At the start of a device control. -/
  | deviceStart
  /-- In the parameters of a device control. -/
  | deviceParameters
  /-- In the intermediate characters of a device control. -/
  | deviceIntermediate
  /-- In a string for a device or an application, up to the string terminator. -/
  | controlString
  /-- In a command for the operating system, up to the bell. -/
  | commandString
  deriving DecidableEq

/-- Whether a character is white space: tab, line feed, form feed or carriage return. -/
def isSpacing (c : Char) : Bool := c == '\t' || c == '\n' || c == '\x0c' || c == '\x0d'

/-- Whether the code point of a character lies between two bounds. -/
def isBetween (c : Char) (low high : Nat) : Bool := low ≤ c.toNat && c.toNat ≤ high

/-- Whether a character of text is kept: it is white space or visible. -/
def isKept (c : Char) : Bool := isSpacing c || (0x20 ≤ c.toNat && c.toNat != 0x7f)

/-- Whether a character ends a string for a device: one of its bytes is the string terminator. -/
def isTerminator (c : Char) : Bool := (String.utf8EncodeChar c).contains 0x9c

/-- The progress behind the character that follows an escape. -/
def afterEscape (c : Char) : Progress :=
  if isBetween c 0x20 0x2f then .within .intermediate
  else if c = '[' then .within .parameters
  else if c = ']' then .commandString
  else if c = 'P' then .deviceStart
  else if c = 'X' ∨ c = '^' ∨ c = '_' then .controlString
  else if isBetween c 0x30 0x7e then .text
  else .within .escape

/-- The progress behind a character that goes on with a sequence. -/
def afterOpening (opening : Opening) (c : Char) : Progress :=
  match opening with
  | .escape => afterEscape c
  | .intermediate => if isBetween c 0x30 0x7e then .text else .within .intermediate
  | .parameters => if isBetween c 0x40 0x7e then .text else .within .parameters

/-- The progress behind a character of the text that has interrupted a sequence. -/
def afterInterruption (opening : Opening) (c : Char) : Progress :=
  if !isKept c then .within opening
  else if c.toNat < 0x80 then .interrupted opening
  else .text

/-- The progress behind a character of a device control that has not come to its string. -/
def afterDevice (progress : Progress) (c : Char) : Progress :=
  if isBetween c 0x40 0x7e then .controlString
  else if isBetween c 0x20 0x2f then .deviceIntermediate
  else if isBetween c 0x30 0x3f then
    match progress with
    | .deviceStart => .deviceParameters
    | .deviceParameters => if isBetween c 0x30 0x3b then .deviceParameters else .controlString
    | _ => .controlString
  else progress

/-- The progress behind a character, and whether the character is kept. -/
def step (progress : Progress) (c : Char) : Progress × Bool :=
  if c = '\x18' ∨ c = '\x1a' then (.text, false)
  else if c = '\x1b' then (.within .escape, false)
  else
    match progress with
    | .text => (.text, isKept c)
    | .within opening =>
      if isSpacing c then (.interrupted opening, true) else (afterOpening opening c, false)
    | .interrupted opening => (afterInterruption opening c, isKept c)
    | .deviceStart => (afterDevice .deviceStart c, false)
    | .deviceParameters => (afterDevice .deviceParameters c, false)
    | .deviceIntermediate => (afterDevice .deviceIntermediate c, false)
    | .controlString => (if isTerminator c then .text else .controlString, false)
    | .commandString => (if c = '\x07' then .text else .commandString, false)

/-- The characters that are kept of what follows a point in a text. -/
def keptFrom (progress : Progress) : List Char → List Char
  | [] => []
  | c :: rest =>
    let (next, kept) := step progress c
    if kept then c :: keptFrom next rest else keptFrom next rest

/-- A text without control sequences and control characters. -/
def withoutControls (text : String) : String := String.ofList (keptFrom .text text.toList)

end ChainIR.ControlSequence
