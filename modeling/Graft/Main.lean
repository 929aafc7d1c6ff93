import Graft.Command.Listing

/-!
# The command line

Runs a command in the place whose listing is on standard input.
-/

namespace Graft.Command

/-- All that is left of an input. -/
partial def readAll (input : IO.FS.Stream) (before : String) : IO String := do
  let line ← input.getLine
  if line.isEmpty then pure before else readAll input (before ++ line)

end Graft.Command

open Graft Graft.Command

/-- Runs the command that the words ask for, and says what comes of it. -/
def main (words : List String) : IO UInt32 := do
  let words : List Text := words.map String.toList
  let place ← match Request.ofWords words with
    | .ok _ => (fun t => Listing.read t.toList) <$> readAll (← IO.getStdin) ""
    | .error _ => pure Listing.nowhere
  let outcome := run place words
  match outcome with
  | .usage kind =>
    if kind.isAnswer then IO.println (Text.toString kind.message)
    else IO.eprintln (Text.toString kind.message)
  | .done output => IO.print (Text.toString output)
  | .failed output message =>
    IO.print (Text.toString output)
    IO.eprintln (Text.toString (complaint message))
  return outcome.status.toUInt32
