import SourceDocs.Comment.Scan
import SourceDocs.Document
import SourceDocs.Header
import SourceDocs.Prototype.Parse
import SourceDocs.Prototype.Search
import SourceDocs.Resolve

namespace SourceDocs

inductive Method
  -- A parser for the language finds the entities and their prototypes.
  | full (parser : String → Poll (List Entity))
  | basic
  | textOnly
  | container

namespace Method

def ofSupport : Support → Method
  | .basic => basic
  | .textOnly => textOnly
  | .container => container

end Method

structure Pipeline where
  profile : Profile
  kinds : KindTable
  method : Method
  usings : List Using

namespace Pipeline

def ofProfile (profile : Profile) (kinds : KindTable) : Except ProfileError Pipeline := do
  kinds.validate
  profile.validate kinds
  return ⟨profile, kinds, .ofSupport profile.support, []⟩

variable (p : Pipeline)

abbrev Found := List Comment.Candidate × List Entity × Comment.Tags

-- The whole text is one comment.
def readText (buf : Buffer) : Poll Found :=
  Poll.check >>= fun _ =>
    let tags := Comment.Tags.empty buf
    let (comments, entities) :=
      Header.recognize buf tags p.kinds [.plain 1 (buf.lineCount + 1)]
    pure (comments, entities, tags)

def readBasic (buf : Buffer) : Poll Found :=
  Comment.candidates buf p.profile >>= fun (candidates, tags) =>
    let (comments, entities) := Header.recognize buf tags p.kinds candidates
    Prototype.assigned p.profile buf comments entities >>= fun entities =>
      pure (comments, entities, tags)

def readFull (parser : String → Poll (List Entity)) (buf : Buffer) (source : String) :
    Poll Found :=
  Comment.candidates buf p.profile >>= fun (comments, tags) =>
    parser source >>= fun entities => pure (comments, entities, tags)

def parsePrototype (entity : Entity) : Entity :=
  match entity.prototype with
  | some text => { entity with parsed := some (Prototype.ofText p.profile text.toList) }
  | none => entity

def document (path : String) (found : Found) : Document :=
  let (comments, entities, tags) := found
  ⟨path, p.profile.name, p.profile.memberOperator, comments,
    Resolve.file ⟨p.kinds, p.profile, p.usings⟩ (entities.map p.parsePrototype), tags⟩

-- Reads one file. A language that only embeds others cannot be read.
def parse (path source : String) : Except ProfileError (Poll Document) :=
  let buf := Buffer.ofString source
  let finish (found : Poll Found) : Poll Document :=
    found >>= fun f => pure (p.document path f)
  match p.method with
  | .container => .error (.containerLanguage p.profile.name)
  | .textOnly => .ok (finish (p.readText buf))
  | .basic => .ok (finish (p.readBasic buf))
  | .full parser => .ok (finish (p.readFull parser buf source))

end Pipeline
end SourceDocs
