import Questionnaire.Preview

/-! # Command line

Opens the form of a directory, prints its page and reads commands from standard
input. Help and events go to standard error.
-/

namespace Questionnaire.Main

open Preview (Arguments Output)

def usage : String :=
  "usage: questionnaire DIR [-c FILE | --config FILE] [-p FILE | --page FILE]"

/-- The value of an option that is written together with its name. -/
def joined? (short long : String) (argument : String) : Option String :=
  if argument.startsWith (long ++ "=") then
    some (argument.drop (long.length + 1)).toString
  else if argument.startsWith short && argument.length > short.length then
    let value := (argument.drop short.length).toString
    some (if value.startsWith "=" then (value.drop 1).toString else value)
  else none

/-- The directory and the options so far, and the arguments behind them. -/
def readArguments? (directory config page : Option String) :
    List String → Option Arguments
  | [] => directory.map fun directory => { directory, config, page }
  | "-c" :: v :: rest | "--config" :: v :: rest =>
    if config.isSome then none else readArguments? directory (some v) page rest
  | "-p" :: v :: rest | "--page" :: v :: rest =>
    if page.isSome then none else readArguments? directory config (some v) rest
  | a :: rest =>
    if let some v := joined? "-c" "--config" a then
      if config.isSome then none else readArguments? directory (some v) page rest
    else if let some v := joined? "-p" "--page" a then
      if page.isSome then none else readArguments? directory config (some v) rest
    else if a.startsWith "-" && a ≠ "-" then none
    else if directory.isSome then none
    else readArguments? (some a) config page rest

def readFile (path : String) : IO (Option String) := do
  try
    return some (← IO.FS.readFile path)
  catch _ => return none

def fieldText : Event.Field → String
  | .text s => s
  | .count n => toString n

def eventText (e : Event) : String :=
  let level := match e.level with
    | .warning => "WARN"
    | .error => "ERROR"
  String.join (level :: " " :: e.message ::
    e.fields.map fun f => " " ++ f.1 ++ "=" ++ fieldText f.2)

def printEvents (events : List Event) : IO Unit := do
  let err ← IO.getStderr
  for e in events do
    err.putStrLn (eventText e)

def printOutputs (outputs : List Output) : IO Unit := do
  let out ← IO.getStdout
  let err ← IO.getStderr
  for o in outputs do
    match o with
    | .page html =>
      out.putStrLn html
      out.flush
    | .help => err.putStrLn Command.help

partial def loop (input : IO.FS.Stream) (form : Form PageRegion) : IO UInt32 := do
  let line ← input.getLine
  if line.isEmpty then return 0
  match Preview.respond line form with
  | .error error =>
    (← IO.getStderr).putStrLn ("Error: " ++ error.message)
    return 1
  | .ok response =>
    printEvents response.events
    printOutputs response.value.output
    if response.value.continues then loop input response.value.form else return 0

def run (a : Arguments) : IO UInt32 := do
  match ← (Preview.openForm readFile a).run with
  | .error failure =>
    (← IO.getStderr).putStrLn ("Error: " ++ failure)
    return 1
  | .ok opened =>
    printEvents opened.events
    printOutputs (Preview.greeting opened.value)
    loop (← IO.getStdin) opened.value

end Questionnaire.Main

def main (arguments : List String) : IO UInt32 := do
  match Questionnaire.Main.readArguments? none none none arguments with
  | some a => Questionnaire.Main.run a
  | none =>
    (← IO.getStderr).putStrLn Questionnaire.Main.usage
    return 2
