import SourceDocs.Kind
import SourceDocs.Text.Ordered

namespace SourceDocs

inductive EnumPlacement
  | global
  | underType
  | underParent
deriving DecidableEq, Repr

structure BlockSymbols where
  opener : String
  closer : String
deriving DecidableEq, Repr

-- A line comment whose first line has a symbol of its own.
structure LinePair where
  first : String
  following : String
deriving DecidableEq, Repr

structure Enders where
  symbols : List String
  lineBreaks : Bool
deriving DecidableEq, Repr

namespace Enders

-- A line feed, or a backslash and an `n`, stands for line breaks; an empty entry for nothing.
def isLineBreak (entry : String) : Bool :=
  entry = "\n" || entry = "\\n"

def ofList (entries : List String) : Enders where
  symbols := entries.filter fun e => !isLineBreak e && e ≠ ""
  lineBreaks := entries.any isLineBreak

def toList (enders : Enders) : List String :=
  enders.symbols ++ if enders.lineBreaks then ["\n"] else []

end Enders

inductive Support
  | basic
  -- The whole text is documentation.
  | textOnly
  -- Only holds texts in other languages.
  | container
deriving DecidableEq, Repr

structure Profile where
  name : String
  extensions : List String
  support : Support
  lineComments : List String
  blockComments : List BlockSymbols
  javadocLineComments : List LinePair
  javadocBlockComments : List BlockSymbols
  xmlLineComments : List String
  blockCommentsNest : Bool
  -- Separates the parts of a symbol where people read it.
  memberOperator : String
  lineExtender : Option String
  caseSensitive : Bool
  enumValues : EnumPlacement
  prototypeEnders : List (String × Enders)
  typeKeywords : List String
deriving DecidableEq, Repr

namespace Profile

def defaultTypeKeywords : List String := Text.setOf [
  "int", "int8", "int16", "int32", "int64", "uint", "uint8", "uint16", "uint32", "uint64",
  "signed", "unsigned", "integer", "long", "ulong", "short", "ushort", "real", "float",
  "double", "decimal", "float32", "float64", "float80", "void", "char", "string", "wchar",
  "wchar_t", "byte", "ubyte", "sbyte", "bool", "boolean"]

def plain : Profile where
  name := ""
  extensions := []
  support := .basic
  lineComments := []
  blockComments := []
  javadocLineComments := []
  javadocBlockComments := []
  xmlLineComments := []
  blockCommentsNest := false
  memberOperator := "."
  lineExtender := none
  caseSensitive := true
  enumValues := .underType
  prototypeEnders := []
  typeKeywords := defaultTypeKeywords

def endersFor? (profile : Profile) (kind : String) : Option Enders :=
  (profile.prototypeEnders.find? fun e => Text.sameIgnoringCase e.1 kind).map (·.2)

def isBuiltinType (profile : Profile) (word : List Char) : Bool :=
  profile.typeKeywords.any (·.toList = word) ||
    !profile.caseSensitive && profile.typeKeywords.any (·.toList = word.map Char.toLower)

def handlesExtension (profile : Profile) (extension : String) : Bool :=
  profile.extensions.any (Text.sameIgnoringCase · extension)

-- Two-byte symbols that meet in a star, such as those of a slash and a star, have a Javadoc form
-- with a second star.
def javadocBlock? (symbols : BlockSymbols) : Option BlockSymbols :=
  if symbols.opener.utf8ByteSize = 2 ∧ symbols.closer.utf8ByteSize = 2 ∧
      symbols.opener.toList.getLast? = some '*' ∧ symbols.closer.toList.head? = some '*' then
    some ⟨symbols.opener ++ "*", symbols.closer⟩
  else
    none

-- The first line of a Javadoc comment repeats the last character of its symbol.
def javadocLine? (symbol : String) : Option LinePair :=
  symbol.toList.getLast?.map fun last => ⟨symbol.push last, symbol⟩

-- An XML comment has a symbol of at least three characters.
def xmlLine? (symbol : String) : Option String :=
  symbol.toList.getLast?.map fun last =>
    if symbol.toList.length = 1 then (symbol.push last).push last else symbol.push last

def deriveCommentSymbols (profile : Profile) : Profile :=
  { profile with
    javadocBlockComments :=
      if profile.javadocBlockComments.isEmpty then profile.blockComments.filterMap javadocBlock?
      else profile.javadocBlockComments
    javadocLineComments :=
      if profile.javadocLineComments.isEmpty then profile.lineComments.filterMap javadocLine?
      else profile.javadocLineComments
    xmlLineComments :=
      if profile.xmlLineComments.isEmpty then profile.lineComments.filterMap xmlLine?
      else profile.xmlLineComments }

-- The profile as it is kept among others: only a language that is read gets derived symbols.
def prepared (profile : Profile) : Profile :=
  if profile.support = .basic then profile.deriveCommentSymbols else profile

def validate (profile : Profile) (kinds : KindTable) : Except ProfileError Unit :=
  let isEmptyPair (b : BlockSymbols) : Bool := b.opener = "" || b.closer = ""
  if (profile.blockComments ++ profile.javadocBlockComments).any isEmptyPair then
    .error (.emptyCommentSymbol profile.name)
  else
    match profile.prototypeEnders.find? fun e => !kinds.contains e.1 with
    | some (kind, _) => .error (.unknownEnderKind profile.name kind)
    | none => .ok ()

end Profile
end SourceDocs
