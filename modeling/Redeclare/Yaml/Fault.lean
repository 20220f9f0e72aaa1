/-!
# Faults of YAML texts

Why a text is not a YAML stream of one document.
-/

namespace Redeclare.Yaml

/-- Why a text is not one well-formed document. -/
inductive SyntaxFault where
  /-- A character that no YAML text may hold. -/
  | control (c : Char)
  /-- A character that starts no token here. -/
  | unexpected (c : Char)
  /-- A token stands where the grammar has no place for it. -/
  | misplaced
  /-- A colon is missing behind a key. -/
  | missingColon
  /-- A tab stands where indentation is counted. -/
  | tabIndentation
  /-- The text ends within a quoted scalar, or a document marker stands in it. -/
  | unclosedQuote
  /-- A backslash sequence that means nothing. -/
  | badEscape
  /-- A directive that is unknown, incomplete or repeated. -/
  | badDirective
  /-- A tag, an anchor or an alias without a proper name. -/
  | badName
  /-- A header of a block scalar that is not one. -/
  | badBlockHeader
  /-- A tag uses a handle that no directive declares. -/
  | unknownHandle (handle : String)
  /-- An alias names no anchor before it. -/
  | unknownAnchor (name : String)
  /-- A second document follows the first. -/
  | moreDocuments
  deriving DecidableEq

end Redeclare.Yaml
