import EntityModel.Yaml.Lexer

/-!
# Character classes of YAML 1.1

Besides LF and CR, three further characters break lines.  A text must not hold control characters.
-/

namespace EntityModel.Yaml.OneOne

def isEnd (c : Char) : Bool := c == endOfText

def isBreak (c : Char) : Bool :=
  c == '\n' || c == '\r' || c == '\u0085' || c == '\u2028' || c == '\u2029'

def isBreakOrEnd (c : Char) : Bool := isBreak c || isEnd c

def isBlank (c : Char) : Bool := c == ' ' || c == '\t'

def isGap (c : Char) : Bool := isBlank c || isBreakOrEnd c

/-- Indicators that end a plain scalar inside a flow collection. -/
def isFlow (c : Char) : Bool := c == ',' || c == '[' || c == ']' || c == '{' || c == '}'

def isUriChar (verbatim : Bool) (c : Char) : Bool :=
  isAlpha c || ";/?:@&=+$.%!~*'()".toList.contains c
    || (verbatim && (c == ',' || c == '[' || c == ']'))

/-- What a text may hold. -/
def isAllowed (c : Char) : Bool :=
  let n := c.toNat
  n == 0x09 || n == 0x0a || n == 0x0d || (0x20 ≤ n && n ≤ 0x7e) || n == 0x85
    || (0xa0 ≤ n && n ≤ 0xfffd) || 0x10000 ≤ n

/-- `mark` three times, followed by a gap, at the start of a line. -/
def startsWithMarker (c : Cursor) (mark : Char) : Bool :=
  c.mark.column == 0 && c.peek == mark && c.peekAt 1 == mark && c.peekAt 2 == mark
    && isGap (c.peekAt 3)

def atDocumentStart (c : Cursor) : Bool := startsWithMarker c '-'

def atDocumentEnd (c : Cursor) : Bool := startsWithMarker c '.'

def atDocumentMarker (c : Cursor) : Bool := atDocumentStart c || atDocumentEnd c

/-- What a break stands for in a scalar: the two separators for themselves, any other for LF. -/
def breakText (c : Char) : Char :=
  if c == '\u2028' || c == '\u2029' then c else '\n'

end EntityModel.Yaml.OneOne
