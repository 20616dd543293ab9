import EntityModel.Yaml.Token

/-!
# State of a lexer

Two things make YAML more than a regular language to its lexers.  Indentation opens and closes
blocks, so that tokens appear which no character stands for; and a key is known only by the `:`
behind it, so that the tokens from a place where a key may start are kept back until it is settled.

Both versions of YAML share this state and what is done with it; they differ in what they read.
-/

namespace EntityModel.Yaml

structure Lexer where
  cursor : Cursor
  /-- Tokens ready but not yet delivered. -/
  queue : List Token := []
  delivered : Nat := 0
  started : Bool := false
  /-- A key may start here. -/
  keyAllowed : Bool := false
  /-- Pending keys, that of the innermost flow collection first. -/
  keys : List PendingKey := []
  indent : Int := -1
  indents : List Indent := []
  flow : Nat := 0
  /-- Where a `:` may touch its value, since a quoted key or a flow collection ended there. -/
  adjacentAt : Nat := 0
  /-- The bytes up to which block scalars have looked ahead. -/
  seen : Nat := 0
  /-- Inside a flow mapping in braces. -/
  inFlowMapping : Bool := false
  /-- Inside a pair of a flow sequence that has no braces of its own. -/
  inPair : Bool := false

/-- The longest key that stays on one line. -/
def keyLimit : Nat := 1024

/-- The key has ended without a `:`, on an earlier line or too far back by some measure. -/
def PendingKey.isStale (measure : Mark → Nat) (k : PendingKey) (now : Mark) : Bool :=
  k.possible && (k.mark.line < now.line || measure k.mark + keyLimit < measure now)

abbrev Scan (ε : Type) := StateT Lexer (Except ε)

namespace Scan

variable {ε : Type}

def cursor : Scan ε Cursor := return (← get).cursor

def mark : Scan ε Mark := return (← get).cursor.mark

def peek : Scan ε Char := return (← get).cursor.peek

def peekAt (n : Nat) : Scan ε Char := return (← get).cursor.peekAt n

def move (f : Cursor → Cursor) : Scan ε Unit :=
  modify fun l => { l with cursor := f l.cursor }

def skip : Scan ε Unit := move Cursor.skip

/-- Reads the longest run of content accepted by `p`. -/
def takeWhile (p : Char → Bool) : Scan ε (List Char) := do
  let (run, c) := (← cursor).takeWhile p
  move fun _ => c
  return run

def inFlow : Scan ε Bool := return (← get).flow > 0

/-- Puts a token last, from `start` to the current place. -/
def push (kind : TokenKind) (start : Mark) : Scan ε Unit :=
  modify fun l => { l with queue := l.queue ++ [⟨kind, start, l.cursor.mark⟩] }

/-- Puts a token before the one with the given number. -/
def insert (number : Nat) (kind : TokenKind) (mark : Mark) : Scan ε Unit :=
  modify fun l => { l with queue := l.queue.insertIdx (number - l.delivered) ⟨kind, mark, mark⟩ }

def allowKey (b : Bool) : Scan ε Unit :=
  modify fun l => { l with keyAllowed := b }

/-! ### Indentation -/

/-- Leaves every indentation deeper than `column`; those that opened a block end it at `mark`. -/
def leave (column : Int) (mark : Mark) (indent : Int) : List Indent → Int × List Indent × List Token
  | [] => (indent, [], [])
  | i :: rest =>
    if indent > column then
      let (indent, indents, ends) := leave column mark i.column rest
      (indent, indents, if i.closes then ⟨.blockEnd, mark, mark⟩ :: ends else ends)
    else (indent, i :: rest, [])

def unrollIndent (column : Int) : Scan ε Unit :=
  modify fun l =>
    if l.flow > 0 then l
    else
      let (indent, indents, ends) := leave column l.cursor.mark l.indent l.indents
      { l with indent, indents, queue := l.queue ++ ends }

/-- Enters a block at `column`, unless it is open already; `number` is the token to open it before.
An indentation that opened no block gives way first. -/
def rollIndent (column : Nat) (number : Option Nat) (kind : TokenKind) (mark : Mark) :
    Scan ε Unit := do
  if ← inFlow then return
  modify fun l =>
    match l.indents with
    | i :: rest =>
      if l.indent ≤ column && !i.closes then { l with indent := i.column, indents := rest } else l
    | [] => l
  let l ← get
  if l.indent < column then
    set { l with indents := ⟨l.indent, true⟩ :: l.indents, indent := column }
    match number with
    | some n => insert n kind mark
    | none => modify fun l => { l with queue := l.queue ++ [⟨kind, mark, mark⟩] }

/-! ### Streams -/

def streamStart : Scan ε Unit := do
  modify fun l => { l with started := true, indent := -1, keyAllowed := true, keys := [{}] }
  push .streamStart (← mark)

/-- The end of a text counts as the start of a line. -/
def forceNewLine : Scan ε Unit :=
  modify fun l =>
    if l.cursor.mark.column == 0 then l
    else { l with cursor.mark.line := l.cursor.mark.line + 1, cursor.mark.column := 0 }

/-- Calls `next` until the first token of the queue can go out, that is until no pending key may
still come before it. -/
def ready (next dropStaleKeys : Scan ε Unit) : Nat → Scan ε Unit
  | 0 => pure ()
  | fuel + 1 => do
    let waiting ←
      if (← get).queue.isEmpty then pure true
      else do
        dropStaleKeys
        let l ← get
        pure (l.keys.any fun k => k.possible && k.token == l.delivered)
    if waiting then
      next
      ready next dropStaleKeys fuel

/-- The tokens from a state of the lexer on. -/
def deliver (next dropStaleKeys : Scan ε Unit) (fuel : Nat) : Nat → Lexer → TokenStream ε
  | 0, _ => ⟨[], none⟩
  | n + 1, l =>
    match (ready next dropStaleKeys fuel).run l with
    | .error e => ⟨[], some e⟩
    | .ok ((), l) =>
      match l.queue with
      | [] => ⟨[], none⟩
      | t :: queue =>
        let sent : SentToken := { t with readTo := l.cursor.mark }
        if t.kind == .streamEnd then ⟨[sent], none⟩
        else
          let rest :=
            deliver next dropStaleKeys fuel n { l with queue, delivered := l.delivered + 1 }
          { rest with tokens := sent :: rest.tokens }

/-- The tokens of a text: every call of `next` reads a character, apart from the two ends. -/
def tokens (next dropStaleKeys : Scan ε Unit) (text : List Char) : TokenStream ε :=
  let fuel := 4 * text.length + 16
  deliver next dropStaleKeys fuel fuel { cursor := .ofText text }

end Scan

/-! ### Numbers and code points in texts -/

def hexValue (c : Char) : Nat :=
  if c.isDigit then c.toNat - '0'.toNat
  else if 'a' ≤ c && c ≤ 'f' then c.toNat - 'a'.toNat + 10
  else c.toNat - 'A'.toNat + 10

def isHex (c : Char) : Bool :=
  c.isDigit || ('a' ≤ c && c ≤ 'f') || ('A' ≤ c && c ≤ 'F')

/-- The value of decimal digits. -/
def decimalValue (digits : List Char) : Nat :=
  digits.foldl (fun v d => v * 10 + (d.toNat - '0'.toNat)) 0

/-- The character with a given code point, if there is one. -/
def charOfCode? (n : Nat) : Option Char :=
  if n.isValidChar then some (Char.ofNat n) else none

/-- Letters of directive names and tag handles. -/
def isWordChar (c : Char) : Bool := c.isAlphanum || c == '-'

def isAlpha (c : Char) : Bool := isWordChar c || c == '_'

/-- The characters of the short escapes. -/
def shortEscape? : Char → Option Char
  | '0' => some '\x00'
  | 'a' => some '\x07'
  | 'b' => some '\x08'
  | 't' | '\t' => some '\t'
  | 'n' => some '\n'
  | 'v' => some '\x0b'
  | 'f' => some '\x0c'
  | 'r' => some '\r'
  | 'e' => some '\x1b'
  | ' ' => some ' '
  | '"' => some '"'
  | '/' => some '/'
  | '\\' => some '\\'
  | 'N' => some '\u0085'
  | '_' => some '\u00a0'
  | 'L' => some '\u2028'
  | 'P' => some '\u2029'
  | _ => none

/-- How many hexadecimal digits follow an escape of the long kind. -/
def escapeLength? : Char → Option Nat
  | 'x' => some 2
  | 'u' => some 4
  | 'U' => some 8
  | _ => none

/-- How many bytes the escape of one character takes, read off its first byte. -/
def leadingWidth? (byte : Nat) : Option Nat :=
  if byte / 0x80 == 0 then some 1
  else if byte / 0x20 == 6 then some 2
  else if byte / 0x10 == 14 then some 3
  else if byte / 8 == 30 then some 4
  else none

/-- What becomes of the breaks at the end of a block scalar. -/
inductive Chomping
  | strip
  | clip
  | keep
deriving DecidableEq

end EntityModel.Yaml
