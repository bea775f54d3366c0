/-!
# What is wrong with a document text

* `YamlFault` : the reasons for which a text is no document or a tree has no text;
* `YamlFault.message` : one line about each.
-/

namespace Transclusion

/-- Why a text cannot be read, or a tree cannot be written. -/
inductive YamlFault where
  | character
  | indentation
  | simpleKey
  | directive
  | tag
  | anchor
  | blockScalar
  | quotedScalar
  | plainScalar
  | unexpectedToken
  | severalDocuments
  | unknownAnchor
  | repetition
  | depth
  | duplicateKey
  | forcedScalar
  | notSequence
  | notMapping
  | nestedTag
  | unwritableKey
  | unfinished
  deriving DecidableEq, Inhabited

namespace YamlFault

def message : YamlFault → String
  | character => "a character that cannot start or be part of a token"
  | indentation => "a token at a place where the indentation forbids it"
  | simpleKey => "a key without its colon"
  | directive => "a malformed directive line"
  | tag => "a malformed tag"
  | anchor => "a malformed anchor or alias"
  | blockScalar => "a malformed block scalar"
  | quotedScalar => "a malformed quoted scalar"
  | plainScalar => "a malformed plain scalar"
  | unexpectedToken => "a token that does not fit the structure"
  | severalDocuments => "more than one document"
  | unknownAnchor => "an alias to an anchor that is not there"
  | repetition => "aliases repeat too much of the document"
  | depth => "collections nested too deeply"
  | duplicateKey => "a key that is there twice"
  | forcedScalar => "a scalar that does not have the type of its tag"
  | notSequence => "a sequence is expected"
  | notMapping => "a mapping is expected"
  | nestedTag => "a tag directly inside a tag cannot be written"
  | unwritableKey => "a key of this shape cannot be written"
  | unfinished => "the text was not read to its end"

end YamlFault
end Transclusion
