namespace SourceDocs

-- Mistakes in the configuration. Malformed source text is never an error.
inductive ProfileError
  | unknownEnderKind (language kind : String)
  | emptyCommentSymbol (language : String)
  | containerLanguage (language : String)
  | unknownLanguage (name : String)
  | unsupportedExtension (extension : String)
  | hierarchyWithoutScope (kind : String)
deriving DecidableEq, Repr

namespace ProfileError

def message : ProfileError → String
  | unknownEnderKind language kind =>
    "language " ++ language ++ ": prototype enders reference unknown kind `" ++ kind ++ "`"
  | emptyCommentSymbol language =>
    "language " ++ language ++ ": block comment pair has an empty symbol"
  | containerLanguage language =>
    "language " ++ language ++ " only embeds other languages and cannot be parsed directly"
  | unknownLanguage name => "unknown language: " ++ name
  | unsupportedExtension extension => "no language is registered for extension: " ++ extension
  | hierarchyWithoutScope kind => "kind " ++ kind ++ ": hierarchy is set but the scope is not Start"

end ProfileError
end SourceDocs
