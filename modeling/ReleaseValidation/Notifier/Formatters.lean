import Mathlib.Data.Rat.Floor
import Mathlib.Data.List.Sort
import ReleaseValidation.Store.Json

/-! # The embeds of a run

The formatters of the notifier read a decoded message by key, with a default value for
every key, and write an embed for the chat. Numbers are exact rationals here. How the
interpreter writes a float or a container as text, and reads a float from text, is a
parameter: no message of the orchestrator makes a formatter do either.
-/
namespace ReleaseValidation.Notifier
open Programs Store

structure Interpreter where
  str : Json → String
  float : String → Except Err ℚ

/-- `f"{j}"`. -/
def Interpreter.text (py : Interpreter) : Json → String
  | .str s => s
  | .int n => toString n
  | j => py.str j

/-- `round(x)`: to the nearest integer, the even one of two. -/
def roundHalfEven (x : ℚ) : ℤ :=
  let d := x - ⌊x⌋
  if d < 1 / 2 then ⌊x⌋
  else if 1 / 2 < d then ⌊x⌋ + 1
  else if ⌊x⌋ % 2 = 0 then ⌊x⌋ else ⌊x⌋ + 1

/-- `f"{x:.{digits}f}"`. -/
def fixed (digits : ℕ) (x : ℚ) : String :=
  let n := (roundHalfEven (|x| * 10 ^ digits)).toNat
  let sign := if x < 0 then "-" else ""
  let fraction := toString (n % 10 ^ digits)
  let point := if digits = 0 then "" else
    "." ++ String.ofList (List.replicate (digits - fraction.length) '0') ++ fraction
  sign ++ toString (n / 10 ^ digits) ++ point

/-- A value that takes part in arithmetic and comparisons of numbers. -/
def number : Json → Except Err ℚ
  | .int n => .ok n
  | .float x => .ok x
  | .bool b => .ok (if b then 1 else 0)
  | j => .error (.exception ("unsupported operand type(s): '" ++ j.typeName ++ "' and 'int'"))

/-- `float(j)`. -/
def Interpreter.toFloat (py : Interpreter) : Json → Except Err ℚ
  | .str s => py.float s
  | .int n => .ok n
  | .float x => .ok x
  | .bool b => .ok (if b then 1 else 0)
  | j => .error (.exception ("float() argument must be a string or a real number, not '" ++ j.typeName ++ "'"))

def asText (operation : String) : Json → Except Err String
  | .str s => .ok s
  | j => .error (j.noAttribute operation)

/-- `s.strip()`. -/
def strip (s : String) : String :=
  String.ofList ((s.toList.dropWhile Char.isWhitespace).reverse.dropWhile Char.isWhitespace).reverse

/-- `s[:n]`. -/
def clip (n : ℕ) (s : String) : String := String.ofList (s.toList.take n)

structure Field where
  name : String
  value : Json

structure Embed where
  title : String
  description : String
  color : ℕ
  fields : List Field
  url : String
  timestamp : String
  footer : String

def Embed.field? (e : Embed) (name : String) : Option Json :=
  (e.fields.find? fun f => f.name == name).map Field.value

def colourSuccess : ℕ := 0x22C55E
def colourWarning : ℕ := 0xF59E0B
def colourError : ℕ := 0xEF4444

def dashboardUrl : String := "http://localhost:3000"

/-- `_bar`. -/
def bar (value : ℚ) (total : ℕ) : String :=
  let filled := roundHalfEven (value / 100 * total)
  String.ofList (List.replicate filled.toNat '█' ++ List.replicate (total - filled).toNat '░')

/-- The pattern `Phase\s+(\d+)` at the start of a text. -/
def matchPhase (cs : List Char) : Option ℕ :=
  if "Phase".toList.isPrefixOf cs then
    let rest := cs.drop 5
    let digits := (rest.dropWhile Char.isWhitespace).takeWhile Char.isDigit
    if rest.head?.any Char.isWhitespace && !digits.isEmpty then
      some (digits.foldl (fun n c => 10 * n + (c.toNat - '0'.toNat)) 0)
    else none
  else none

/-- `_phase_number`. -/
def phaseNumber (phase : Json) : Except Err ℕ :=
  match phase.orElse (.str "") with
  | .str s => .ok ((matchPhase s.toList).getD 9999)
  | j => .error (.exception ("expected string or bytes-like object, got '" ++ j.typeName ++ "'"))

/-- `_phase_icon`. -/
def phaseIcon (passRate : ℚ) : String :=
  if 100 ≤ passRate then "✅" else if 80 ≤ passRate then "⚠️" else "❌"

def phaseLine (py : Interpreter) (ph : Json) : Except Err String := do
  let icon ← (← ph.item "pass_rate") |> number
  let name := (← ph.get "phase" .null).orElse (.str "Uncategorised")
  let passed ← ph.get "passed" (.int 0)
  let total ← ph.get "total" (.int 0)
  let rate ← (← ph.get "pass_rate" (.float 0)) |> number
  return phaseIcon icon ++ " **" ++ py.text name ++ "**  `" ++ py.text passed ++ "/" ++ py.text total ++
    "`  " ++ bar rate 8 ++ "  **" ++ fixed 0 rate ++ "%**"

/-- `_build_phase_lines`: sorted by phase number, phases of one number in their order. -/
def buildPhaseLines (py : Interpreter) (phases : Json) : Except Err String := do
  let items ← phases.elements
  let keyed ← items.mapM fun ph => do return (← phaseNumber (← ph.get "phase" (.str "")), ph)
  let sorted := keyed.mergeSort fun a b => decide (a.1 ≤ b.1)
  let lines ← sorted.mapM fun p => phaseLine py p.2
  return "\n".intercalate lines

/-- What a description says about the phases after the text `lead`. -/
def phaseBlock (py : Interpreter) (lead : String) (phases : Json) : Except Err String :=
  if phases.truthy then do return lead ++ (← buildPhaseLines py phases) else .ok ""

/-- One line of the field "Failing Tests". -/
def failLine (py : Interpreter) (icon : Json → String) (t : Json) : Except Err String := do
  let mark := icon (← t.get "status" .null)
  let error := strip (← asText "strip" (← t.get "error" (.str "")))
  let name := py.text (← t.item "name")
  if error = "" then
    return mark ++ " **" ++ name ++ "** — _" ++ py.text (← t.get "status" (.str "failed")) ++ "_"
  else
    return mark ++ " **" ++ name ++ "**\n  `" ++ clip 120 error ++ "`"

def failingTests (py : Interpreter) (icon : Json → String) (topFailures : Json) : Except Err (List Field) :=
  if topFailures.truthy then do
    let lines ← (← (← topFailures.upTo 5).elements).mapM (failLine py icon)
    return [⟨"Failing Tests", .str ("\n".intercalate lines)⟩]
  else .ok []

/-- `f"{triggered_user} ({triggered})" if triggered_user else triggered`. -/
def byStr (py : Interpreter) (triggered triggeredUser : Json) : Json :=
  if triggeredUser.truthy then .str (py.text triggeredUser ++ " (" ++ py.text triggered ++ ")") else triggered

def durationText (py : Interpreter) (duration : Json) : String :=
  if duration.truthy then py.text duration ++ "s" else "—"

/-- The header line of a completed run's description. -/
def rateLine (passRate : ℚ) : String := "## " ++ bar passRate 10 ++ "  **" ++ fixed 1 passRate ++ "%** pass rate\n"

def completedTitle (passRate : ℚ) (shortId : String) : String :=
  if 100 ≤ passRate then "✅ All Tests Passed — " ++ shortId
  else if 80 ≤ passRate then "⚠️ Run Completed with Warnings — " ++ shortId
  else "❌ Run Completed — Low Pass Rate — " ++ shortId

def completedColour (passRate : ℚ) : ℕ :=
  if 100 ≤ passRate then colourSuccess else if 80 ≤ passRate then colourWarning else colourError

/-- `format_run_completed`. The second argument of the source is not read. -/
def formatRunCompleted (py : Interpreter) (now : String) (run : Json) : Except Err (List Embed) := do
  let runId ← run.get "run_id" (.str "")
  let shortId := py.text (← runId.upTo 8)
  let passRate ← py.toFloat ((← run.get "pass_rate" (.float 0)).orElse (.float 0))
  let passed := (← run.get "passed_tests" (.int 0)).orElse (.int 0)
  let failed := (← run.get "failed_tests" (.int 0)).orElse (.int 0)
  let total := (← run.get "total_tests" (.int 0)).orElse (.int 0)
  let duration ← run.get "duration_seconds" .null
  let release ← run.get "release_tag" (.str "—")
  let triggered ← run.get "triggered_by" (.str "—")
  let triggeredUser ← run.get "triggered_by_user" .null
  let phases := (← run.get "phases" .null).orElse (.arr [])
  let topFailures := (← run.get "top_failures" .null).orElse (.arr [])
  let phaseLines ← phaseBlock py "\n" phases
  let icon := fun | Json.str "error" => "⚠️" | _ => "✗"
  let failing ← failingTests py icon topFailures
  return [{
    title := completedTitle passRate shortId
    description := rateLine passRate ++ phaseLines
    color := completedColour passRate
    fields := [⟨"Release", .str ("`" ++ py.text release ++ "`")⟩, ⟨"Triggered", byStr py triggered triggeredUser⟩,
      ⟨"Duration", .str (durationText py duration)⟩, ⟨"✅ Passed", .str (py.text passed)⟩,
      ⟨"❌ Failed", .str (py.text failed)⟩, ⟨"Total", .str (py.text total)⟩] ++ failing
    url := dashboardUrl ++ "/runs/" ++ py.text runId
    timestamp := now
    footer := "Cartesi RVP · Orchestrator" }]

/-- The failure reason: of the message, else of its `fields`, else a fixed text. -/
def reportedError (run : Json) : Except Err Json := do
  let own ← run.get "error_message" .null
  if own.truthy then return own
  let fields ← run.get "fields" (.obj [])
  return (← fields.get "error_message" .null).orElse (.str "Unknown failure reason")

/-- `format_run_failed`. -/
def formatRunFailed (py : Interpreter) (now : String) (run : Json) : Except Err (List Embed) := do
  let runId ← run.get "run_id" (.str "")
  let shortId := py.text (← runId.upTo 8)
  let release ← run.get "release_tag" (.str "—")
  let triggered ← run.get "triggered_by" (.str "—")
  let triggeredUser ← run.get "triggered_by_user" .null
  let duration ← run.get "duration_seconds" .null
  let stage ← run.get "status" (.str "failed")
  let error := clip 400 (strip (← asText "strip" (← reportedError run)))
  let phases := (← run.get "phases" .null).orElse (.arr [])
  let topFailures := (← run.get "top_failures" .null).orElse (.arr [])
  let phaseLines ← phaseBlock py "\n\n### Phase Results at Time of Failure\n" phases
  let stageText ← asText "upper" stage
  let failing ← failingTests py (fun _ => "✗") topFailures
  return [{
    title := "❌ Run Failed — " ++ shortId
    description := "### Failure Reason\n```\n" ++ error ++ "\n```" ++ phaseLines
    color := colourError
    fields := [⟨"Release", .str ("`" ++ py.text release ++ "`")⟩, ⟨"Triggered", byStr py triggered triggeredUser⟩,
      ⟨"Stage", .str stageText.toUpper⟩, ⟨"Duration", .str (durationText py duration)⟩] ++ failing
    url := dashboardUrl ++ "/runs/" ++ py.text runId
    timestamp := now
    footer := "Cartesi RVP · Orchestrator" }]

end ReleaseValidation.Notifier
