import GitHistory.Proofs.Executable.Guard
import GitHistory.Proofs.InProcess.Reference

/-! What a commit changed is what sets it apart from its first parent, in whatever way one asks: for
the commit alone, with an empty text beside it, from the parent to the commit, or for a commit that
was handed out before. -/
namespace GitHistory

namespace Store

variable {store : Store} {reference : String} {id first : ObjectId} {others : List ObjectId}

section
variable {other : Option String}

end

end Store

section
variable {stage : Stage} {caller : Caller} {root : RawPath} {reference : String} {store : Store}
  {id first : ObjectId} {others : List ObjectId}

end

namespace Store

end Store

namespace Store

end Store

end GitHistory
