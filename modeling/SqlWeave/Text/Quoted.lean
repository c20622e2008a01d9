/-
SqlWeave/Text/Quoted.lean

The quoted description of a text: between quotes, with everything that would not print
spelled out.  The quotes are apostrophes, unless the text holds apostrophes and no double
quote.
-/
import SqlWeave.Text.CharClass

namespace SqlWeave.Text

/-- The quote around the description of a text. -/
def outerQuote (t : Text) : Char :=
  if t.contains apostrophe && !t.contains quotation then quotation else apostrophe

/-- The spelling of an unprintable character: with a letter for the three common ones, else
with two, four or eight hexadecimal digits. -/
def spelledOut (c : Char) : Text :=
  if c = '\t' then ['\\', 't']
  else if c = '\n' then ['\\', 'n']
  else if c = '\r' then ['\\', 'r']
  else if c.toNat < 0x100 then '\\' :: 'x' :: paddedDigits 16 2 c.toNat
  else if c.toNat < 0x10000 then '\\' :: 'u' :: paddedDigits 16 4 c.toNat
  else '\\' :: 'U' :: paddedDigits 16 8 c.toNat

/-- One character inside a description between the quotes `mark`. -/
def describeChar (mark c : Char) : Text :=
  if c = mark ∨ c = backslash then [backslash, c]
  else if isPrintable c then [c]
  else spelledOut c

/-- The quoted description of a text. -/
def quoted (t : Text) : Text :=
  between (outerQuote t) (t.flatMap (describeChar (outerQuote t)))

/-- The character with the code of a byte. -/
def ofByte (b : UInt8) : Char := Char.ofNat b.toNat

/-- One byte inside a description in which `mark` needs a backslash.  Only ASCII is shown as
it is. -/
def describeByte (mark : Char) (b : UInt8) : Text :=
  if b.toNat < 127 then describeChar mark (ofByte b) else spelledOut (ofByte b)

/-- The quoted description of some bytes.  The quote around it gets a backslash inside; where
`guarded` holds, the apostrophe does so in any case. -/
def quotedBytes (guarded : Bool) (bytes : List UInt8) : Text :=
  let mark := outerQuote (bytes.map ofByte)
  let inner := if guarded then apostrophe else mark
  'b' :: between mark (bytes.flatMap (describeByte inner))

/-- Descriptions in brackets, with commas between them. -/
def bracketed (items : List Text) : Text := '[' :: (commaJoin items ++ [']'])

end SqlWeave.Text
