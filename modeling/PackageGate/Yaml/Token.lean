import PackageGate.Yaml.Cursor

/-!
# Tokens of YAML

- `Style`: how a scalar is written.
- `Tag`: a tag as bytes; an escape can write any byte but zero, which ends a tag.
- `Token`: indicators, marks and scalars. The tokens that open and close block
  collections are not written: they follow from columns.
-/

namespace PackageGate.Yaml

/-- How a scalar is written. -/
inductive Style
  | plain
  | quoted
  | literal
  | folded
deriving DecidableEq, Inhabited

/-- A tag, or a piece of one. -/
abbrev Tag := List UInt8

/-- The tag that a text is. -/
def Tag.ofText (text : String) : Tag := text.toUTF8.toList

/-- A tag up to its first zero. -/
def Tag.cut (t : Tag) : Tag := t.takeWhile (· ≠ 0)

/-- A token. -/
inductive Token
  | version (major minor : Nat)
  | tagHandle (handle : String) (leading : Tag)
  | documentStart
  | documentEnd
  | blockSequence
  | blockMapping
  | blockEnd
  | flowSequence
  | flowSequenceEnd
  | flowMapping
  | flowMappingEnd
  | entry
  | comma
  | key
  | value
  /-- A reference to an anchor. -/
  | reference (name : String)
  | anchor (name : String)
  /-- A tag in its short form; a tag without a handle is written in full. -/
  | tag (handle : String) (suffix : Tag)
  | scalar (style : Style) (text : String)
deriving DecidableEq, Inhabited

end PackageGate.Yaml
