import EntityModel.Yaml.Cursor

/-!
# Lexical faults of YAML 1.1

A fault has a problem, the place where it was met, and mostly a context: what was being read, and
where that began.
-/

namespace EntityModel.Yaml.OneOne

/-- What was being read. -/
inductive Context
  | nextToken
  | simpleKey
  | anchor
  | aliasName
  | tag
  | tagDirectiveStart
  | tagDirectiveHandle
  | parsedTagDirective
  | parsedTag
  | directive
  | versionDirective
  | tagDirective
  | blockScalar
  | quotedScalar
  | escape
  | plainScalar
deriving Repr, DecidableEq

def Context.message : Context → String
  | nextToken => "while scanning for the next token"
  | simpleKey => "while scanning a simple key"
  | anchor => "while scanning an anchor"
  | aliasName => "while scanning an alias"
  | tag => "while scanning a tag"
  | tagDirectiveStart => "while scanning a tag directive"
  | tagDirectiveHandle => "while parsing a tag directive"
  | parsedTagDirective => "while parsing a %TAG directive"
  | parsedTag => "while parsing a tag"
  | directive => "while scanning a directive"
  | versionDirective => "while scanning a %YAML directive"
  | tagDirective => "while scanning a %TAG directive"
  | blockScalar => "while scanning a block scalar"
  | quotedScalar => "while scanning a quoted scalar"
  | escape => "while parsing a quoted scalar"
  | plainScalar => "while scanning a plain scalar"

inductive Problem
  | controlCharacter (offset : Nat)
  | noToken
  | keyWithoutValue
  | blockEntryContext
  | keyContext
  | valueContext
  | anchorName
  | tagStart
  | verbatimTagEnd
  | tagTrailing
  | tagUri
  | uriOctet
  | uriLeadingOctet
  | uriTrailingOctet
  | directiveName
  | directiveNameMissing
  | directiveNameCharacter
  | lineTrailing
  | versionTooLong
  | versionNumber
  | versionDot
  | tagDirectiveBlank
  | tagDirectiveTrailing
  | blockIndentZero
  | blockTab
  | quotedMarker
  | quotedEnd
  | escapeUnknown
  | escapeDigits
  | escapeCodePoint
  | plainColon
  | plainTab
deriving Repr, DecidableEq

def Problem.message : Problem → String
  | controlCharacter _ => "control characters are not allowed"
  | noToken => "found character that cannot start any token"
  | keyWithoutValue => "could not find expected ':'"
  | blockEntryContext => "block sequence entries are not allowed in this context"
  | keyContext => "mapping keys are not allowed in this context"
  | valueContext => "mapping values are not allowed in this context"
  | anchorName => "did not find expected alphabetic or numeric character"
  | tagStart => "did not find expected '!'"
  | verbatimTagEnd => "did not find the expected '>'"
  | tagTrailing => "did not find expected whitespace or line break"
  | tagUri => "did not find expected tag URI"
  | uriOctet => "did not find URI escaped octet"
  | uriLeadingOctet => "found an incorrect leading UTF-8 octet"
  | uriTrailingOctet => "found an incorrect trailing UTF-8 octet"
  | directiveName => "found unknown directive name"
  | directiveNameMissing => "could not find expected directive name"
  | directiveNameCharacter => "found unexpected non-alphabetical character"
  | lineTrailing => "did not find expected comment or line break"
  | versionTooLong => "found extremely long version number"
  | versionNumber => "did not find expected version number"
  | versionDot => "did not find expected digit or '.' character"
  | tagDirectiveBlank => "did not find expected whitespace"
  | tagDirectiveTrailing => "did not find expected whitespace or line break"
  | blockIndentZero => "found an indentation indicator equal to 0"
  | blockTab => "found a tab character where an indentation space is expected"
  | quotedMarker => "found unexpected document indicator"
  | quotedEnd => "found unexpected end of stream"
  | escapeUnknown => "found unknown escape character"
  | escapeDigits => "did not find expected hexdecimal number"
  | escapeCodePoint => "found invalid Unicode character escape code"
  | plainColon => "found unexpected ':'"
  | plainTab => "found a tab character that violates indentation"

structure Fault where
  problem : Problem
  mark : Mark
  context : Option (Context × Mark)
deriving Repr, DecidableEq

end EntityModel.Yaml.OneOne
