import Questionnaire.Form
import Questionnaire.Text.Blank

/-! # Previews

A preview shows a form as a page and is driven by lines of text. After each
interaction the page shows the current question as it then is.
-/

namespace Questionnaire

inductive Command where
  | interact (i : Interaction)
  | print
  | quit
  deriving DecidableEq, Repr

namespace Command

/-- The verb and the argument of a line, both without blanks around them. -/
def split (line : String) : String × String :=
  let cs := Text.trim line.toList
  (String.ofList (cs.takeWhile (· ≠ ' ')), String.ofList (Text.trim (cs.dropWhile (· ≠ ' '))))

def ofLine? (line : String) : Option Command :=
  let (verb, argument) := split line
  match verb with
  | "click" => if argument.isEmpty then none else some (.interact (.click argument))
  | "input" => some (.interact (.input argument))
  | "submit" => some (.interact (.submit argument))
  | "confirm" => some (.interact .confirm)
  | "show" => some .print
  | "quit" | "exit" => some .quit
  | _ => none

def help : String :=
  "commands: click <option> | input <text> | submit <text> | confirm | show | quit"

end Command

namespace Preview

/-- What a preview prints: the page, or a reminder of the commands. -/
inductive Output where
  | page (html : String)
  | help
  deriving DecidableEq, Repr

structure Arguments where
  directory : String
  config : Option String := none
  page : Option String := none
  deriving DecidableEq, Repr

/-- A path below a directory; an absolute one stands for itself. -/
def below (directory path : String) : String :=
  if path.toList.head? = some '/' ∨ directory.isEmpty then path
  else if directory.toList.getLast? = some '/' then directory ++ path
  else directory ++ "/" ++ path

section Opening

variable {m : Type → Type} [Monad m] (read : String → m (Option String))

def readFile (what path : String) : ExceptT String m String :=
  ExceptT.mk do
    match ← read path with
    | some text => return .ok text
    | none => return .error ("reading " ++ what ++ path)

def readConfig (a : Arguments) : ExceptT String m Config :=
  match a.config with
  | none => return {}
  | some path => do
    let text ← readFile read "config " path
    match Config.ofText text with
    | .ok config => return config
    | .error _ => throw ("parsing config " ++ path)

def readRegion (a : Arguments) (config : Config) : ExceptT String m PageRegion :=
  match a.page with
  | none => return .blank config
  | some path => return .ofMarkup (← readFile read "page " path) config

def loadText (directory path : String) : m (Except String String) :=
  (readFile read "" (below directory path)).run

/-- The form of a directory, started, with the events of loading and starting. The
configuration is read before the page, and both before the resources. -/
def openForm (a : Arguments) : ExceptT String m (Logged (Form PageRegion)) := do
  let config ← readConfig read a
  let region ← readRegion read a config
  let resources ← ExceptT.lift (Resources.load (loadText read a.directory) config).run
  let loaded := ({ config, region } : Form PageRegion).takeResources resources
  match loaded.value.2 with
  | .error error => throw error.message
  | .ok _ =>
    return do
      let (form, _) ← loaded
      return (← form.start).1

end Opening

/-- What is printed once the form is open. -/
def greeting (form : Form PageRegion) : List Output := [.page form.region.html, .help]

/-- Draws the question that is shown again unless another one has taken its place. -/
def interact (i : Interaction) (form : Form PageRegion) :
    Logged (Form PageRegion × Except FormError (List Transition)) := do
  let (after, result) ← form.dispatch i
  if after.currentId? = form.currentId? then return ((← after.refresh).1, result)
  else return (after, result)

/-- The preview after a line: its form, what it prints and whether it goes on. -/
structure Response where
  form : Form PageRegion
  output : List Output := []
  continues : Bool := true

def respond (line : String) (form : Form PageRegion) : Except FormError (Logged Response) :=
  if (Text.trim line.toList).isEmpty then .ok (pure { form })
  else
    match Command.ofLine? line with
    | none => .ok (pure { form, output := [.help] })
    | some .quit => .ok (pure { form, continues := false })
    | some .print => .ok (pure { form, output := [.page form.region.html] })
    | some (.interact i) =>
      let reaction := interact i form
      match reaction.value.2 with
      | .error error => .error error
      | .ok _ =>
        .ok ((fun r => { form := r.1, output := [.page r.1.region.html] }) <$> reaction)

/-- What is printed for a list of lines, and the failure that ends the preview, if any. -/
def runLines (form : Form PageRegion) : List String → List Output × Option FormError
  | [] => ([], none)
  | line :: lines =>
    match respond line form with
    | .error error => ([], some error)
    | .ok response =>
      if response.value.continues then
        let (outputs, failure) := runLines response.value.form lines
        (response.value.output ++ outputs, failure)
      else (response.value.output, none)

/-- The lines of a text. A line ends with a line feed, or with a carriage return and one;
the last line may go without. -/
def lines (text : String) : List String :=
  let parts := text.toList.splitOn '\n'
  parts.dropLast.map (fun l => String.ofList (if l.getLast? = some '\r' then l.dropLast else l)) ++
    (parts.getLast?.toList.filter (· ≠ [])).map String.ofList

/-- A whole run: what is printed and why it failed, if it did. -/
structure Report where
  outputs : List Output := []
  failure : Option String := none
  deriving DecidableEq, Repr

def run (read : String → Option String) (a : Arguments) (input : String) : Report :=
  match (openForm (m := Id) read a).run with
  | .error failure => { failure := some failure }
  | .ok opened =>
    let form := opened.value
    let (outputs, failure) := runLines form (lines input)
    { outputs := greeting form ++ outputs, failure := failure.map FormError.message }

namespace Report

def page? : Output → Option String
  | .page html => some html
  | .help => none

/-- The pages, each on a line of its own. -/
def text (r : Report) : String :=
  String.join ((r.outputs.filterMap page?).map (· ++ "\n"))

def helpCount (r : Report) : Nat := r.outputs.countP (· = .help)

def exitCode (r : Report) : Nat := if r.failure.isSome then 1 else 0

/-- The first line of the failure. -/
def headline? (r : Report) : Option String := r.failure.map fun f => (lines f).headD ""

end Report

end Preview

end Questionnaire
