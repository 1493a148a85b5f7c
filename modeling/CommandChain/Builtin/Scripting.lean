import CommandChain.Command
import CommandChain.EngineError
import CommandChain.Script.Language
/-!
# Scripts in commands

Commands take scripts as parameters. A script that does not compile ends the command; one that
fails for an object is reported and the next object follows.
-/

namespace CommandChain.Builtin

/-- The error of a script that does not compile. -/
def compileError (message : String) : EngineError :=
  .script message

variable {language : Script.Language}

def runError (block : Script.Block language) (message : String) : EngineError :=
  .withContext ("Script '" ++ block.source ++ "' failed") (.script message)

/-- The script bound to a parameter, compiled; `none` where the parameter is not bound. -/
def compileParameter (language : Script.Language) (call : Call) (parameter : String) :
    Except CommandFault (Option (Script.Block language)) :=
  match call.parameters.text? parameter with
  | none => .ok none
  | some source =>
    match Script.Block.compile language call.scripts source with
    | .ok block => .ok (some block)
    | .error message =>
      .error
        { terminating := true
          error :=
            { message := parameter ++ ": " ++ (compileError message).message
              category := .parserError
              errorId := "ScriptCompileFailed" } }

/-- The result of a call whose script failed. -/
def scriptFailed (block : Script.Block language) (message : String) : CallResult :=
  .nonTerminating
    { message := (runError block message).message
      category := .invalidOperation
      errorId := "ScriptFailed" }

/-- Evaluates a block for a call: the value or why there is none, and the scope after it. -/
def evaluateBlock (call : Call) (block : Script.Block language) (scope : language.Scope)
    (item : Option Value) : Except String Value × language.Scope :=
  block.run call.scripts call.adapter scope item

end CommandChain.Builtin
