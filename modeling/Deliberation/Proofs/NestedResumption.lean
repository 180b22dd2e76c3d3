import Deliberation.Proofs.AnchoredResumption

/-! Where nested queries are resumed. The evaluator asks the way it resumes queries only about those
that are under way in the sense of a footing: it cannot tell two ways apart that answer alike
there. -/
namespace Deliberation

open State

variable {ctx : Context} {F : Footing ctx} {base : State} {resume spy : Resumption}

namespace Search

end Search

end Deliberation
