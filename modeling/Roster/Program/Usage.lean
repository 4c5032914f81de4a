import Roster.Program.Console
import Roster.Program.Options

/-!
# Help and Refusals of a Command Line

A program answers a request for help with its help text and success. A command line that
it cannot carry out gets the usage, which is the help text up to its first empty line,
and the reason.

## Main definitions

* `Guide`: The name and the help text of a program.
* `Guide.refuse`: What a program answers to a refusal.
-/

namespace Roster

namespace Program

/-- The name and the help text of a program, line by line. -/
structure Guide where
  name : String
  help : List String

namespace Guide

/-- The lines that tell how to call a program. -/
def usage (g : Guide) : List String := g.help.takeWhile fun line => !line.isEmpty

/-- The code of success. -/
def successCode : Nat := 0

/-- The code of a command line that is not carried out. -/
def refusalCode : Nat := 2

/-- What a program answers to a refusal: its code and its output. -/
def refuse (g : Guide) : Refusal → Nat × Console
  | .help => (successCode, .ofOut (Output.lines g.help))
  | .wrong message =>
    (refusalCode, .ofErr (Output.lines (g.usage ++ [g.name ++ ": error: " ++ message])))

end Guide

/-- The names of all methods, for the options that choose among them. -/
def choiceText (names : List String) : String := "\x7b" ++ ",".intercalate names ++ "\x7d"

end Program

end Roster
