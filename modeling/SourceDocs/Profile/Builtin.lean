import SourceDocs.Profile.Basic

namespace SourceDocs.Profile

def endersOf (entries : List (String × List String)) : List (String × Enders) :=
  Text.tableOf (entries.map fun e => (e.1, Enders.ofList e.2))

def builtinC : Profile := { plain with
  name := "c"
  extensions := ["c", "h", "cpp", "hpp", "cc", "cxx", "cs", "java", "js", "ts", "go", "rs", "swift",
    "kt", "scala"]
  lineComments := ["//"]
  blockComments := [⟨"/*", "*/"⟩]
  xmlLineComments := ["///"]
  prototypeEnders := endersOf [
    ("function", [";", "\x7b"]),
    ("variable", [";", "=", "\x7b"]),
    ("property", [";", "\x7b"]),
    ("constant", [";", "=", ","]),
    ("type", [";", "\x7b"]),
    ("class", [";", "\x7b"]),
    ("interface", [";", "\x7b"]),
    ("enumeration", [";", "\x7b"]),
    ("macro", ["\n"])] }

def builtinPascal : Profile := { plain with
  name := "pascal"
  extensions := ["pas", "pp", "dpr", "inc"]
  lineComments := ["//"]
  blockComments := [⟨"(*", "*)"⟩, ⟨"\x7b", "\x7d"⟩]
  caseSensitive := false
  prototypeEnders := endersOf [
    ("function", [";"]),
    ("variable", [";", "="]),
    ("property", [";"]),
    ("constant", [";"]),
    ("type", [";", "="]),
    ("class", [";", "="])] }

def builtinPython : Profile := { plain with
  name := "python"
  extensions := ["py", "pyw"]
  lineComments := ["#"]
  prototypeEnders := endersOf [
    ("function", [":"]),
    ("class", [":"]),
    ("variable", ["=", "\n"]),
    ("constant", ["=", "\n"])] }

def builtinPerl : Profile := { plain with
  name := "perl"
  extensions := ["pl", "pm"]
  lineComments := ["#"]
  memberOperator := "::"
  enumValues := .global
  prototypeEnders := endersOf [
    ("function", [";", "\x7b"]),
    ("variable", [";", "="]),
    ("class", [";", "\x7b"])] }

def builtinShell : Profile := { plain with
  name := "shell"
  extensions := ["sh", "bash", "zsh"]
  lineComments := ["#"]
  lineExtender := some "\\"
  prototypeEnders := endersOf [
    ("function", ["\x7b", "\n"]),
    ("variable", ["=", "\n"])] }

def builtinSql : Profile := { plain with
  name := "sql"
  extensions := ["sql"]
  lineComments := ["--"]
  blockComments := [⟨"/*", "*/"⟩]
  caseSensitive := false
  enumValues := .global
  prototypeEnders := endersOf [
    ("function", [";", "as", "is", "begin"]),
    ("variable", [";", ",", ")", ":=", "default"]),
    ("class", [";", "("])] }

def builtinLua : Profile := { plain with
  name := "lua"
  extensions := ["lua"]
  lineComments := ["--"]
  blockComments := [⟨"--[[", "]]"⟩]
  prototypeEnders := endersOf [
    ("function", ["end", "\n"]),
    ("variable", ["=", "\n"])] }

def builtinVisualBasic : Profile := { plain with
  name := "visualbasic"
  extensions := ["vb", "vbs", "bas"]
  lineComments := ["'"]
  lineExtender := some "_"
  caseSensitive := false
  prototypeEnders := endersOf [
    ("function", ["\n"]),
    ("variable", ["=", "\n"]),
    ("property", ["\n"]),
    ("class", ["\n"]),
    ("enumeration", ["\n"])] }

def builtinText : Profile := { plain with
  name := "text"
  extensions := ["txt", "text"]
  support := .textOnly }

def builtinContainer : Profile := { plain with
  name := "container"
  extensions := ["cgi"]
  support := .container }

def builtins : List Profile :=
  [builtinC, builtinPascal, builtinPython, builtinPerl, builtinShell, builtinSql, builtinLua,
    builtinVisualBasic, builtinText, builtinContainer].map prepared

end SourceDocs.Profile
