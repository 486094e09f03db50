import StaticSite.Build.SiteBuilder

/-!
# Command lines

What a list of arguments asks the program to do. Arguments are read from the first to the last, and the
first one that is wrong, or that asks for help, ends the reading.
-/
namespace StaticSite

/-- What the program can be asked to do. -/
inductive Command where
  | build (project : Option FilePath) (overrides : BuildOverrides)
  | clean (project : Option FilePath) (dryRun : Bool)
  | version
  | help
deriving DecidableEq

/-- The form of an argument. -/
inductive Argument where
  /-- Two dashes alone: what follows are words, however they look. -/
  | escape
  | long (name : Text) (value : Option Text)
  | short (letters : Text)
  | word (t : Text)
deriving DecidableEq

namespace Argument

def ofText (t : Text) : Argument :=
  match t with
  | ['-', '-'] => .escape
  | '-' :: '-' :: t =>
    let name := t.takeWhile (· != '=')
    let rest := t.drop name.length
    .long name (if rest.isEmpty then none else some (rest.drop 1))
  | ['-'] => .word ['-']
  | '-' :: letters => .short letters
  | t => .word t

end Argument

/-- The arguments that a command knows besides those for help and for messages. -/
structure CommandForm where
  flags : List Text
  /-- The options, which have a value. -/
  options : List Text

/-- The arguments of a command as they were given. -/
structure Given where
  verbose : Bool
  flags : List Text
  options : Table Text
  /-- The directory of the project. -/
  project : Option Text

/-- How far the arguments of a command were read. -/
inductive Reading where
  | help
  | given (g : Given)

namespace Given

def empty : Given := ⟨false, [], [], none⟩

/-- Takes in a flag, which is given at most once. -/
def flag? (name : Text) (g : Given) : Option Given :=
  if g.flags.contains name then none else some { g with flags := name :: g.flags }

/-- Takes in the value of an option, which is given at most once. -/
def option? (name value : Text) (g : Given) : Option Given :=
  if g.options.contains name then none else some { g with options := g.options.insert name value }

/-- Takes in the flag for more messages. -/
def verbose? (g : Given) : Option Given :=
  if g.verbose then none else some { g with verbose := true }

/-- Takes in the project, which is not empty. -/
def project? (word : Text) (g : Given) : Option Given :=
  if word.isEmpty || g.project.isSome then none else some { g with project := some word }

/-- Takes in letters after one dash. -/
def letters? : Text → Given → Option Reading
  | [], g => some (.given g)
  | 'v' :: letters, g => g.verbose?.bind (letters? letters)
  | 'h' :: _, _ => some .help
  | _, _ => none

/-- Takes in a long argument without a value of its own. -/
def long? (form : CommandForm) (name : Text) (g : Given) : Option Reading :=
  if name = "help".toList then some .help
  else if name = "verbose".toList then g.verbose?.map .given
  else if form.flags.contains name then (g.flag? name).map .given
  else none

def words? (g : Given) : List Text → Option Reading
  | [] => some (.given g)
  | word :: words => (g.project? word).bind (words? · words)

/-- Reads the arguments of a command. -/
def read? (form : CommandForm) (g : Given) : List Text → Option Reading
  | [] => some (.given g)
  | arg :: args =>
    let next : Option Reading → Option Reading
      | some (.given g) => read? form g args
      | result => result
    match Argument.ofText arg, args with
    | .escape, _ => words? g args
    | .word word, _ => next ((g.project? word).map .given)
    | .short letters, _ => next (letters? letters g)
    | .long name (some value), _ =>
      if form.options.contains name then next ((g.option? name value).map .given) else none
    | .long name none, value :: rest =>
      if form.options.contains name then
        match Argument.ofText value with
        | .word value => (g.option? name value).bind (read? form · rest)
        | _ => none
      else next (g.long? form name)
    | .long name none, [] => next (g.long? form name)

def has (name : String) (g : Given) : Bool := g.flags.contains name.toList

end Given

namespace Command

/-- The arguments of the build command. -/
def buildForm : CommandForm := ⟨["prerender", "no-prerender", "no-static-copy"], ["base-path"]⟩

/-- The arguments of the clean command. -/
def cleanForm : CommandForm := ⟨["dry-run"], []⟩

/-- The command to build. Rendering cannot be switched on and off at once. -/
def ofBuild? (g : Given) : Option Command :=
  let on := g.has "prerender"
  let off := g.has "no-prerender"
  if on && off then none
  else
    some (.build g.project ⟨if on then some true else if off then some false else none,
      if g.has "no-static-copy" then some false else none, g.options.get? "base-path".toList⟩)

/-- Reads what follows the name of a command. -/
def command? (form : CommandForm) (make : Given → Option Command) (args : List Text) : Option Command :=
  match Given.empty.read? form args with
  | none => none
  | some .help => some .help
  | some (.given g) => make g

/-- The names of the commands. -/
def names : List Text := ["build", "clean", "help"]

/-- The command of a name, and the arguments after it. -/
def named? (name : Text) (args : List Text) : Option Command :=
  if name = "build".toList then command? buildForm ofBuild? args
  else if name = "clean".toList then
    command? cleanForm (fun g => some (.clean g.project (g.has "dry-run"))) args
  else if name = "help".toList then
    match args with
    | [] => some .help
    | [topic] => if names.contains topic then some .help else none
    | _ => none
  else none

/-- Reads letters in front of the command: whether messages are asked for, or another command. -/
def letters? (verbose : Bool) : Text → Option (Bool ⊕ Command)
  | [] => some (.inl verbose)
  | 'v' :: letters => if verbose then none else letters? true letters
  | 'h' :: _ => some (.inr .help)
  | 'V' :: _ => some (.inr .version)
  | _ => none

/-- Reads a command line. -/
def parseFrom? (verbose : Bool) : List Text → Option Command
  | [] => none
  | arg :: args =>
    match Argument.ofText arg with
    | .word name => named? name args
    | .short letters =>
      match letters? verbose letters with
      | some (.inl verbose) => parseFrom? verbose args
      | some (.inr command) => some command
      | none => none
    | .long name none =>
      if name = "help".toList then some .help
      else if name = "version".toList then some .version
      else if name = "verbose".toList && !verbose then parseFrom? true args
      else none
    | _ => none

/-- What a command line asks for, unless it is wrong. -/
def parse? (args : List Text) : Option Command := parseFrom? false args

end Command

end StaticSite
