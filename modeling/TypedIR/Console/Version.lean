import TypedIR.Console.Paint
import TypedIR.Text.Blank
import TypedIR.Text.Json

/-
  What is known about the build of the program, and how it is shown.
-/

namespace TypedIR.Console

open Text

/-- The build. -/
structure Version where
  version : String := "0.1.0-dev"
  commit : String := ""
  message : String := ""
  date : String := ""
  deriving DecidableEq, Repr, Inhabited

namespace Version

/-- A version of three numbers and a suffix, each number in its own colour;
any other text stays as it is. -/
def colored (color : Bool) (v : String) : String :=
  let core := v.toList.takeWhile fun c => c != '-' && c != '+'
  let suffix := v.toList.drop core.length
  match (String.ofList core).splitOn "." with
  | [major, minor, patch] =>
    paint color [.yellow, .bold] major ++ "." ++ paint color [.green, .bold] minor ++ "." ++
      paint color [.blue, .bold] patch ++ String.ofList suffix
  | _ => v

def pretty (color : Bool) (v : Version) : String :=
  let commit :=
    if v.commit = "" then ""
    else "\ncommit: " ++ v.commit ++ (if v.message = "" then "" else " (" ++ v.message ++ ")")
  let date := if v.date = "" then "" else "\nbuilt:  " ++ v.date
  "jitkit " ++ colored color v.version ++ commit ++ date

def json (v : Version) : String :=
  let members := [("version", v.version)] ++
    [("git_commit", v.commit), ("git_message", v.message), ("build_date", v.date)].filter (·.2 ≠ "")
  "\x7b\n" ++ ",\n".intercalate (members.map fun m => "  " ++ jsonString m.1 ++ ": " ++ jsonString m.2) ++
    "\n\x7d"

/-- The build with blanks around its parts removed; no version is a version
under development. -/
def tidied (v : Version) : Version :=
  let version := trimBlanks v.version
  { version := if version = "" then "dev" else version
    commit := trimBlanks v.commit, message := trimBlanks v.message, date := trimBlanks v.date }

end Version

end TypedIR.Console
