import SourceDocs.Comment.Candidate
import SourceDocs.Comment.Tags
import SourceDocs.Entity

namespace SourceDocs

structure Document where
  path : String
  language : String
  memberOperator : String
  comments : List Comment.Candidate
  entities : List Entity
  tags : Comment.Tags

end SourceDocs
