import Clippings.Yaml.Mark

/-!
# Faults of form

A text that is not well formed is refused with the problem met, the place where it was met, and,
where one is known, the construct that was being read and where that construct began.
-/

namespace Clippings
namespace Yaml

inductive Problem where
  | anchorName
  | badEscape
  | badEscapeCode
  | badIndicator
  | badLeadingOctet
  | badTrailingOctet
  | blockEntryNotAllowed
  | colonInFlow
  | commentOrBreak
  | directiveCharacter
  | directiveName
  | directiveUnknown
  | documentIndicator
  | documentStart
  | duplicateTagDirective
  | duplicateVersionDirective
  | endOfText
  | escapedOctet
  | flowMappingEnd
  | flowSequenceEnd
  | hexNumber
  | incompatibleVersion
  | indentationZero
  | keyNotAllowed
  | mappingKey
  | nodeContent
  | sequenceEntry
  | simpleKeyColon
  | tabForIndentation
  | tabInPlain
  | tagBang
  | tagClose
  | tagUri
  | undefinedHandle
  | valueNotAllowed
  | versionLength
  | versionNumber
  | versionSeparator
  | whitespace
  | whitespaceOrBreak
deriving DecidableEq, Repr

namespace Problem

def message : Problem -> String
  | anchorName => "did not find expected alphabetic or numeric character"
  | badEscape => "found unknown escape character"
  | badEscapeCode => "found invalid Unicode character escape code"
  | badIndicator => "found character that cannot start any token"
  | badLeadingOctet => "found an incorrect leading UTF-8 octet"
  | badTrailingOctet => "found an incorrect trailing UTF-8 octet"
  | blockEntryNotAllowed => "block sequence entries are not allowed in this context"
  | colonInFlow => "found unexpected ':'"
  | commentOrBreak => "did not find expected comment or line break"
  | directiveCharacter => "found unexpected non-alphabetical character"
  | directiveName => "could not find expected directive name"
  | directiveUnknown => "found unknown directive name"
  | documentIndicator => "found unexpected document indicator"
  | documentStart => "did not find expected <document start>"
  | duplicateTagDirective => "found duplicate %TAG directive"
  | duplicateVersionDirective => "found duplicate %YAML directive"
  | endOfText => "found unexpected end of stream"
  | escapedOctet => "did not find URI escaped octet"
  | flowMappingEnd => "did not find expected ',' or '\x7d'"
  | flowSequenceEnd => "did not find expected ',' or ']'"
  | hexNumber => "did not find expected hexadecimal number"
  | incompatibleVersion => "found incompatible YAML document"
  | indentationZero => "found an indentation indicator equal to 0"
  | keyNotAllowed => "mapping keys are not allowed in this context"
  | mappingKey => "did not find expected key"
  | nodeContent => "did not find expected node content"
  | sequenceEntry => "did not find expected '-' indicator"
  | simpleKeyColon => "could not find expected ':'"
  | tabForIndentation => "found a tab character where an indentation space is expected"
  | tabInPlain => "found a tab character that violates indentation"
  | tagBang => "did not find expected '!'"
  | tagClose => "did not find the expected '>'"
  | tagUri => "did not find expected tag URI"
  | undefinedHandle => "found undefined tag handle"
  | valueNotAllowed => "mapping values are not allowed in this context"
  | versionLength => "found extremely long version number"
  | versionNumber => "did not find expected version number"
  | versionSeparator => "did not find expected digit or '.' character"
  | whitespace => "did not find expected whitespace"
  | whitespaceOrBreak => "did not find expected whitespace or line break"

end Problem

/-- What was being read when a problem was met. -/
inductive Construct where
  | alias
  | anchor
  | blockCollection
  | blockMapping
  | blockNode
  | blockScalar
  | directive
  | escape
  | flowMapping
  | flowNode
  | flowSequence
  | node
  | plainScalar
  | quotedScalar
  | simpleKey
  | tag
  | tagDirective
  | tagDirectiveHandle
  | tagDirectiveHandleEnd
  | tagDirectiveUri
  | tagUri
  | token
  | versionDirective
deriving DecidableEq, Repr

namespace Construct

def message : Construct -> String
  | .alias => "while scanning an alias"
  | anchor => "while scanning an anchor"
  | blockCollection => "while parsing a block collection"
  | blockMapping => "while parsing a block mapping"
  | blockNode => "while parsing a block node"
  | blockScalar => "while scanning a block scalar"
  | directive => "while scanning a directive"
  | escape => "while parsing a quoted scalar"
  | flowMapping => "while parsing a flow mapping"
  | flowNode => "while parsing a flow node"
  | flowSequence => "while parsing a flow sequence"
  | node => "while parsing a node"
  | plainScalar => "while scanning a plain scalar"
  | quotedScalar => "while scanning a quoted scalar"
  | simpleKey => "while scanning a simple key"
  | tag => "while scanning a tag"
  | tagDirective => "while scanning a %TAG directive"
  | tagDirectiveHandle => "while scanning a tag directive"
  | tagDirectiveHandleEnd => "while parsing a tag directive"
  | tagDirectiveUri => "while parsing a %TAG directive"
  | tagUri => "while parsing a tag"
  | token => "while scanning for the next token"
  | versionDirective => "while scanning a %YAML directive"

end Construct

structure SyntaxFault where
  problem : Problem
  place : Mark
  context : Option (Construct × Mark)
deriving DecidableEq, Repr

namespace SyntaxFault

/-- The construct's place is left out where it is the problem's own. -/
def contextMessage (place : Mark) (construct : Construct) (began : Mark) : String :=
  ", " ++ construct.message ++
    (if began.isOrigin || (began.line == place.line && began.column == place.column) then ""
    else " at " ++ began.message)

def message (f : SyntaxFault) : String :=
  f.problem.message ++
    (if f.place.isOrigin then "" else " at " ++ f.place.message) ++
    match f.context with
    | none => ""
    | some (construct, began) => contextMessage f.place construct began

end SyntaxFault
end Yaml
end Clippings
