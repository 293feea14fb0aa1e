import ForcingData.Finding
import ForcingData.Text.Affix
import ForcingData.Text.Blank
import ForcingData.Text.Digit

/-! # Compliance reports

What a checker of the CF conventions writes about a file. Its report counts the errors and the
warnings, each in a line of its own; the last count of each kind is the one that holds, and decides
over the verdict. Without any count, the checker must at least have ended well. -/

namespace ForcingData.Compliance
open Json Text

inductive Verdict
  | pass
  | warning
  | error
deriving DecidableEq, Repr, Inhabited

namespace Verdict

def name : Verdict → String
  | .pass => "pass"
  | .warning => "warning"
  | .error => "error"

def all : List Verdict := [.pass, .warning, .error]

end Verdict

structure Report where
  verdict : Verdict
  messages : List String
deriving DecidableEq, Repr, Inhabited

/-! ### Counts -/

/-- What a report counts. -/
inductive Counted
  | errors
  | warnings
deriving DecidableEq, Repr

def Counted.label : Counted → String
  | .errors => "ERRORS detected:"
  | .warnings => "WARNINGS detected:"

def greatestCount : Nat := Word.greatest 64

def decimalValue (digits : List Char) : Nat :=
  digits.foldl (fun n c => 10 * n + (c.toNat - '0'.toNat)) 0

/-- Counts that are too great, or written with other digits than `0` to `9`, are the greatest. -/
def countOf (digits : List Char) : Nat :=
  if digits.all Char.isDigit then min (decimalValue digits) greatestCount else greatestCount

/-- The count after its label: digits, perhaps on a later line, and then nothing on their line. -/
def countAfter? (rest : List Char) : Option Nat :=
  let rest := rest.dropWhile isBlank
  let digits := rest.takeWhile isDigit
  let after := (rest.dropWhile isDigit).takeWhile (· != '\n')
  if digits ≠ [] && after.all isBlank then some (countOf digits) else none

/-- The count that a text begins with; blanks may stand before it on its line. -/
def summary? (cs : List Char) : Option (Counted × Nat) :=
  let cs := cs.dropWhile fun c => isBlank c && c != '\n'
  let count? (counted : Counted) : Option (Counted × Nat) := do
    return (counted, ← countAfter? (← dropPrefix? counted.label.toList cs))
  count? .errors <|> count? .warnings

/-- What follows each line feed of a text. -/
def afterLineFeeds : List Char → List (List Char)
  | [] => []
  | c :: cs => if c = '\n' then cs :: afterLineFeeds cs else afterLineFeeds cs

def summaries (cs : List Char) : List (Counted × Nat) :=
  (cs :: afterLineFeeds cs).filterMap summary?

/-- The last count of this kind. -/
def lastCount? (counted : Counted) (found : List (Counted × Nat)) : Option Nat :=
  (found.filter (·.1 = counted)).getLast?.map (·.2)

/-! ### Reading a report -/

/-- Lines that tell of an error or a warning, and are no counts. -/
def isMessage (line : String) : Bool :=
  (startsWith "ERROR" line || startsWith "WARN" line) && (summary? line.toList).isNone

def verdictOf (errors warnings : Option Nat) (endedWell : Bool) : Verdict :=
  if errors.any (0 < ·) then .error
  else if warnings.any (0 < ·) then .warning
  else if errors.isNone && warnings.isNone && !endedWell then .error
  else .pass

def Report.ofText (text : String) (endedWell : Bool) : Report :=
  let found := summaries text.toList
  { verdict := verdictOf (lastCount? .errors found) (lastCount? .warnings found) endedWell
    messages := ((lines text).map trim).filter isMessage }

/-! ### As JSON -/

namespace Report

def json (r : Report) : Value :=
  .object [("status", .text r.verdict.name), ("messages", .texts r.messages)]

def ofTree? (t : Tree) : Option Report := do
  let r ← t.record? ["status", "messages"]
  return {
    verdict := ← r.required "status" (Tree.choice? (Verdict.all.map fun v => (v.name, v)))
    messages := ← r.required "messages" (Tree.list? Tree.string?) }

end Report

/-! ### As a finding -/

def rule : String := "cf_checker"

/-- Warnings fail a file only where they are not allowed. -/
def Report.finding (r : Report) (allowWarnings : Bool) : Finding :=
  let details := "\n".intercalate r.messages
  match r.verdict with
  | .pass => .pass rule "The CF checker found no issues"
  | .warning =>
    if allowWarnings then
      .warning rule .cfChecker ("The CF checker issued warnings (allowed):\n" ++ details)
    else .fail rule .cfChecker ("The CF checker issued warnings:\n" ++ details)
  | .error => .fail rule .cfChecker ("The CF checker found errors:\n" ++ details)

end ForcingData.Compliance
