import CommandChain.Definition.Document
/-!
# Definitions in files

A file whose name ends in `.json` holds JSON, and every other one TOML.
-/

namespace CommandChain

/-- The extension of a file name: what follows its last point, if something stands before that
point. -/
def extension? (name : List Char) : Option (List Char) :=
  let behind := (name.reverse.takeWhile (· != '.')).reverse
  if behind.length + 1 < name.length then some behind else none

/-- The name of the file at the end of a path, slashes at the end of the path not counting. -/
def fileName (path : String) : List Char :=
  ((path.toList.reverse.dropWhile (· == '/')).takeWhile (· != '/')).reverse

namespace PipelineDefinition

def isJsonFile (path : String) : Bool :=
  (extension? (fileName path)).any fun cs => Text.sameName (String.ofList cs) "json"

/-- The definition in a file whose text is given, if it could be read. -/
def load (path : String) (content : Option String) : Except EngineError PipelineDefinition :=
  match content with
  | none =>
    .error (.withContext ("Failed to read pipeline definition " ++ path)
      (.file "the file cannot be read"))
  | some s =>
    match if isJsonFile path then parseJson s else parseToml s with
    | .ok d => .ok d
    | .error e => .error (.withContext ("Failed to parse pipeline definition " ++ path) e)

end PipelineDefinition

end CommandChain
