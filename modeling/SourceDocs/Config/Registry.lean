import SourceDocs.Config.Decode
import SourceDocs.Config.Toml
import SourceDocs.Files.Path
import SourceDocs.Profile.Builtin

namespace SourceDocs

structure Registry where
  profiles : List Profile
  kinds : KindTable

inductive ConfigError
  | malformed
  | profile (error : ProfileError)
deriving DecidableEq, Repr

namespace Registry

def builtin : Registry :=
  ⟨Profile.builtins, .builtin⟩

def insert (r : Registry) (profile : Profile) : Registry :=
  { r with profiles := go r.profiles }
where
  go : List Profile → List Profile
    | [] => [profile.prepared]
    | p :: ps =>
      if Text.sameIgnoringCase p.name profile.name then profile.prepared :: ps else p :: go ps

def insertKind (r : Registry) (kind : Kind) : Registry :=
  { r with kinds := r.kinds.insert kind }

def validate (r : Registry) : Except ProfileError Unit := do
  r.kinds.validate
  r.profiles.forM (·.validate r.kinds)

def byName (r : Registry) (name : String) : Except ProfileError Profile :=
  match r.profiles.find? fun p => Text.sameIgnoringCase p.name name with
  | some p => .ok p
  | none => .error (.unknownLanguage name)

def byExtension (r : Registry) (extension : String) : Except ProfileError Profile :=
  match r.profiles.find? (·.handlesExtension extension) with
  | some p => .ok p
  | none => .error (.unsupportedExtension extension)

def forPath (r : Registry) (path : String) : Except ProfileError Profile :=
  r.byExtension ((Files.Path.extension? path).getD "")

def decode? (v : Config.Value) : Option (List Profile × List Kind) := do
  let fields ← v.table?
  guard (fields.all fun f => f.1 = "language" || f.1 = "kind")
  let records {α : Type} (name : String) (decode : Config.Value → Option α) : Option (List α) :=
    match fields.lookup name with
    | some v => do (← v.list?).mapM decode
    | none => some []
  return (← records "language" (Config.profile? .toml), ← records "kind" (Config.kind? .toml))

-- A configuration adds to the built-in languages and kinds or replaces them, by name and without
-- regard to ASCII case.
def configured (languages : List Profile) (kinds : List Kind) : Registry :=
  languages.foldl insert (kinds.foldl insertKind builtin)

def ofToml (text : String) : Except ConfigError Registry :=
  match (Config.Toml.parse? text).bind decode? with
  | none => .error .malformed
  | some (languages, kinds) =>
    let r := configured languages kinds
    match r.validate with
    | .ok () => .ok r
    | .error e => .error (.profile e)

end Registry
end SourceDocs
