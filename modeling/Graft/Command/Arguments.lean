import Graft.Output.Outline

/-!
# Command lines

The words of a command line, read one by one. The name of a command parts
the words in front of it, which are for all commands, from those behind it.
A parameter that wants a value takes it from its own word or from the next
one; a value in a word of its own is looked at only when something else is
given, or at the end.
-/

namespace Graft.Command

/-- Why the words of a command line are no request. The first three ask for
something to be said about the program itself. -/
inductive Usage where
  | help
  | helpForNothing
  | version
  | missingCommand
  | unknownCommand
  | missingArgument
  | unknownArgument
  | badValue
  | conflict
  | tooManyValues
  deriving DecidableEq, Repr

namespace Usage

/-- Whether the words ask for what they get. -/
def isAnswer : Usage → Bool
  | .help => true
  | .version => true
  | _ => false

/-- What is said to the user. -/
def message : Usage → Text
  | .help =>
      "inspect PATHS | check PATHS | hash FILE [--stamp], with -f json|text|raw and -c SETTINGS"
  | .helpForNothing => "give a command: inspect, check or hash"
  | .version => "0.1.0"
  | .missingCommand => "no command is given"
  | .unknownCommand => "there is no such command"
  | .missingArgument => "a path is missing"
  | .unknownArgument => "there is no such argument"
  | .badValue => "a value is missing or cannot be used"
  | .conflict => "an argument is given more than once"
  | .tooManyValues => "a value is given to an argument that takes none"

end Usage

/-- What can be done. -/
inductive Task where
  /-- Show the entities of sources. -/
  | inspect
  /-- Show the structural hash of a file. -/
  | hash
  /-- Report what is wrong with sources. -/
  | check
  deriving DecidableEq, Repr

/-- A task by its name. -/
def Task.ofName? (name : Text) : Option Task :=
  if name = "inspect" then some .inspect
  else if name = "hash" then some .hash
  else if name = "check" then some .check
  else none

/-- The word that asks for help in place of a task. -/
def helpWord : Text := "help"

/-- Whether a word stands for a task, or asks for help. -/
def isTaskWord (word : Text) : Bool := (Task.ofName? word).isSome || word == helpWord

/-- What can be set by a dash or two and a name. -/
inductive Parameter where
  | form
  | settings
  | quiet
  | verbose
  | stamp
  | help
  | version
  deriving DecidableEq, Repr

namespace Parameter

/-- Whether a parameter wants a value. -/
def takesValue : Parameter → Bool
  | .form => true
  | .settings => true
  | _ => false

/-- Whether a parameter may be given behind a task, or in front of any. -/
def isAllowed (task : Option Task) : Parameter → Bool
  | .stamp => task == some .hash
  | .version => task == none
  | _ => true

/-- A parameter by its long name. -/
def ofName? (name : Text) : Option Parameter :=
  if name = "format" then some .form
  else if name = "config" then some .settings
  else if name = "quiet" then some .quiet
  else if name = "verbose" then some .verbose
  else if name = "stamp" then some .stamp
  else if name = "help" then some .help
  else if name = "version" then some .version
  else none

/-- A parameter by its letter. -/
def ofLetter? : Char → Option Parameter
  | 'f' => some .form
  | 'c' => some .settings
  | 'q' => some .quiet
  | 'v' => some .verbose
  | 'h' => some .help
  | 'V' => some .version
  | _ => none

end Parameter

/-- What was given so far in front of the task or behind it. -/
structure Given where
  form : Option ReportForm := none
  settings : Option Text := none
  quiet : Bool := false
  verbose : Bool := false
  stamp : Bool := false
  files : List Text := []
  deriving Repr

namespace Given

/-- Sets a parameter that wants no value; none can be given twice. -/
def raise (g : Given) : Parameter → Except Usage Given
  | .quiet => if g.quiet then .error .conflict else .ok { g with quiet := true }
  | .verbose => if g.verbose then .error .conflict else .ok { g with verbose := true }
  | .stamp => if g.stamp then .error .conflict else .ok { g with stamp := true }
  | .help => .error .help
  | .version => .error .version
  | .form => .error .badValue
  | .settings => .error .badValue

/-- Sets a parameter to a value; none can be given twice. -/
def assign (g : Given) (p : Parameter) (value : Text) : Except Usage Given :=
  match p with
  | .form =>
    if g.form.isSome then .error .conflict
    else match ReportForm.ofName? value with
      | some f => .ok { g with form := some f }
      | none => .error .badValue
  | .settings =>
    if g.settings.isSome then .error .conflict
    else if value = [] then .error .badValue
    else .ok { g with settings := some value }
  | _ => .error .tooManyValues

/-- Adds files, each of which must have a name. -/
def addFiles (g : Given) (names : List Text) : Except Usage Given :=
  if names.elem [] then .error .badValue else .ok { g with files := g.files ++ names }

/-- Whether anything was given. -/
def isAnything (g : Given) : Bool :=
  g.form.isSome || g.settings.isSome || g.quiet || g.verbose || g.stamp || !g.files.isEmpty

end Given

/-- What was read but not looked at. -/
inductive Pending where
  | nothing
  /-- A parameter that wants a value, and the value if it was read. -/
  | value (p : Parameter) (v : Option Text)
  | files (names : List Text)
  deriving Repr

/-- The state of reading the words in front of the task or behind it. -/
structure Reading where
  given : Given := {}
  pending : Pending := .nothing
  deriving Repr

namespace Reading

/-- Whether the next word is the value of a parameter. -/
def wantsValue (r : Reading) : Bool :=
  match r.pending with
  | .value _ none => true
  | _ => false

/-- What was given, with what was not looked at yet. -/
def settle (r : Reading) : Except Usage Given :=
  match r.pending with
  | .nothing => .ok r.given
  | .value _ none => .error .badValue
  | .value p (some v) => r.given.assign p v
  | .files names => r.given.addFiles names

/-- Takes a parameter, with its value if that stands in the same word. -/
def takeParameter (r : Reading) (p : Parameter) (value : Option Text) : Except Usage Reading := do
  let g ← r.settle
  if p.takesValue then
    match value with
    | some v => return { given := ← g.assign p v }
    | none => return { given := g, pending := .value p none }
  else return { given := ← g.raise p }

/-- Takes a parameter by its long name; an equals sign parts it
from its value. -/
def takeLong (task : Option Task) (r : Reading) (word : Text) : Except Usage Reading :=
  let (name, value) : Text × Option Text := match Text.cutAt? ['='] word with
    | some (name, value) => (name, some value)
    | none => (word, none)
  match (Parameter.ofName? name).filter (Parameter.isAllowed task) with
  | none => .error .unknownArgument
  | some p =>
    if value.isSome && !p.takesValue then .error .tooManyValues else r.takeParameter p value

/-- Takes parameters by their letters. What follows the letter of a parameter
that wants a value is its value, with or without an equals sign. -/
def takeLetters (task : Option Task) (r : Reading) : Text → Except Usage Reading
  | [] => .ok r
  | c :: rest =>
    match (Parameter.ofLetter? c).filter (Parameter.isAllowed task) with
    | none => .error .unknownArgument
    | some p =>
      if p.takesValue then
        match rest with
        | [] => r.takeParameter p none
        | '=' :: value => r.takeParameter p (some value)
        | value => r.takeParameter p (some value)
      else do
        let r ← r.takeParameter p none
        r.takeLetters task rest

/-- Takes a word that starts with a dash; nothing if there is no such word. -/
def takeDashed? (task : Option Task) (r : Reading) : Text → Option (Except Usage Reading)
  | '-' :: '-' :: name => some (r.takeLong task name)
  | '-' :: c :: letters => some (r.takeLetters task (c :: letters))
  | _ => none

/-- Takes the name of a file. A hash is made of one file only. -/
def takeFile (task : Task) (r : Reading) (name : Text) : Except Usage Reading :=
  match r.pending with
  | .files names =>
    if task = .hash then .error .unknownArgument
    else .ok { r with pending := .files (names ++ [name]) }
  | _ =>
    if task = .hash ∧ r.given.files ≠ [] then .error .unknownArgument
    else do return { given := ← r.settle, pending := .files [name] }

/-- Reads the words behind a task. -/
def readTask (task : Task) (r : Reading) : List Text → Except Usage Given
  | [] => r.settle
  | word :: rest =>
    if word = "--" then (rest.foldlM (takeFile task) r).bind settle
    else match r.takeDashed? (some task) word with
      | some next => next.bind fun r => readTask task r rest
      | none =>
        match r.pending with
        | .value p none => readTask task { r with pending := .value p (some word) } rest
        | _ => (r.takeFile task word).bind fun r => readTask task r rest

end Reading

/-- What is to be done, and with which files. -/
inductive Work where
  | inspect (paths : List Text)
  | check (paths : List Text)
  /-- With the hash written into the text, if that is wanted. -/
  | hash (file : Text) (stamp : Bool)
  deriving DecidableEq, Repr

/-- The work on what was given behind a task: on one file at least. -/
def Work.of (task : Task) (g : Given) : Except Usage Work :=
  match g.files with
  | [] => .error .missingArgument
  | file :: others =>
    match task with
    | .inspect => .ok (.inspect (file :: others))
    | .check => .ok (.check (file :: others))
    | .hash => .ok (.hash file g.stamp)

/-- A command line that was understood. -/
structure Request where
  work : Work
  form : ReportForm
  /-- A settings file in place of the usual one. -/
  settings : Option Text
  deriving Repr

namespace Request

/-- The request for some work, of what was given in front of the task and behind
it. What stands behind it counts. -/
def of (work : Work) (before behind : Given) : Request where
  work := work
  form := (behind.form.or before.form).getD .json
  settings := behind.settings.or before.settings

/-- What words that ask for help get: help on one task at most. -/
def helpUsage : List Text → Usage
  | [] => .help
  | [word] => if isTaskWord word then .help else .unknownCommand
  | _ => .unknownCommand

/-- What a command line without a task is refused for. -/
def withoutTask (r : Reading) : Except Usage Request := do
  let g ← r.settle
  throw (if g.isAnything then .missingCommand else .helpForNothing)

/-- Reads the words in front of a task, and the task. -/
def readFrom (r : Reading) : List Text → Except Usage Request
  | [] => withoutTask r
  | word :: rest =>
    if !r.wantsValue && word == helpWord then .error (helpUsage rest)
    else match if r.wantsValue then none else Task.ofName? word with
      | some task => do
        let behind ← Reading.readTask task {} rest
        let work ← Work.of task behind
        let before ← r.settle
        return of work before behind
      | none =>
        if word = "--" then
          match rest with
          | [] => withoutTask r
          | next :: _ => .error (if isTaskWord next then .unknownArgument else .unknownCommand)
        else match r.takeDashed? none word with
          | some next => next.bind fun r => readFrom r rest
          | none =>
            match r.pending with
            | .value p none => readFrom { r with pending := .value p (some word) } rest
            | _ => .error .unknownCommand

/-- The request that the words of a command line make. -/
def ofWords (words : List Text) : Except Usage Request := readFrom {} words

end Request

end Graft.Command
