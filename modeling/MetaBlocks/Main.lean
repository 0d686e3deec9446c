import MetaBlocks.Command

/-!
The program at its prompt: reads the environment and the files, and prints.
-/

set_option autoImplicit false
set_option relaxedAutoImplicit false

namespace MetaBlocks.Command

def failureOf : IO.Error → ReadFailure
  | .noFileOrDirectory _ _ _ => .notFound
  | .permissionDenied _ _ _ => .notPermitted
  | .inappropriateType _ code _ => if code = 20 then .notDirectory else .isDirectory
  | e => .other (toString e)

def readFile (path : List Char) : IO FileBytes := do
  try
    return .ok (← IO.FS.readBinFile (String.ofList path))
  catch e => return .error (failureOf e)

def lookup (files : List (List Char × FileBytes)) (path : List Char) : FileBytes :=
  (files.lookup path).getD (.error .notFound)

end MetaBlocks.Command

open MetaBlocks.Command in
def main (args : List String) : IO UInt32 := do
  let args := args.map String.toList
  let env ← Environment.read fun name => return (← IO.getEnv name).map String.toList
  let paths := match Invocation.ofArguments args env.config with
    | .ok i => i.paths
    | .error _ => []
  let files ← paths.mapM fun p => do return (p, ← readFile p)
  let outcome := run args env (lookup files)
  for line in outcome.complaints do
    IO.eprintln (String.ofList line)
  IO.print (String.ofList outcome.output)
  return outcome.exitCode
