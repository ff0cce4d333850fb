import Hosting.FilePath

/-! # Arguments of the command line

    A command line names one command, with options for the whole program before it and the
    options of the command after it. Arguments are read from the left, and the first that
    does not fit makes the command line a misuse.

    - `Request.ofArguments` reads a command line; a misuse is `none`;
    - `Words` reads the arguments of one command: at most one word, and switches.
-/

namespace Hosting

/-- What the program is asked to do with the host. -/
inductive Command where
  /-- Registers the application of a descriptor file. -/
  | deploy (file : FilePath)
  | undeploy (path : String)
  | list
  /-- Shows the events of one application. -/
  | history (path : String)
  /-- Prepares every application. -/
  | start (watch : Bool)
deriving DecidableEq, Repr

/-- A command with the options of the program. -/
structure Invocation where
  dataDirectory : Option FilePath
  debug : Bool
  command : Command
deriving DecidableEq, Repr

/-- The things that help can be asked for. -/
inductive Topic where
  | program
  | deploy
  | undeploy
  | list
  | history
  | start
  | help
deriving DecidableEq, Repr

/-- What a command line asks for. -/
inductive Request where
  | run (invocation : Invocation)
  | version
  | help (topic : Topic)
deriving DecidableEq, Repr

namespace Request

/-! ### Kinds of arguments -/

/-- An argument in its role. -/
inductive Argument where
  /-- The mark `--`: only words follow. -/
  | mark
  /-- An option `--name`, with the value after an equals sign. -/
  | long (name : List Char) (value : Option (List Char))
  /-- Letters after one dash. -/
  | letters (letters : List Char)
  | word (text : String)
deriving DecidableEq, Repr

/-- The name of an option and the value after an equals sign. -/
def splitValue : List Char → List Char × Option (List Char)
  | [] => ([], none)
  | '=' :: value => ([], some value)
  | c :: cs =>
    let (name, value) := splitValue cs
    (c :: name, value)

/-- The role of an argument. A dash alone is a word. -/
def classify (argument : String) : Argument :=
  match argument.toList with
  | ['-', '-'] => .mark
  | '-' :: '-' :: body => .long (splitValue body).1 (splitValue body).2
  | ['-'] => .word argument
  | '-' :: body => .letters body
  | _ => .word argument

/-! ### Arguments of one command -/

/-- What was read of a command's arguments: its word and its switch. -/
structure Words where
  word : Option String
  switch : Bool
deriving DecidableEq, Repr

/-- What a command accepts. -/
structure Accepted where
  topic : Topic
  /-- It takes a word, of which this says if it is acceptable. -/
  word : Option (String → Bool)
  /-- The name of its switch, if it has one. -/
  switch : Option (List Char)

/-- One more word, if the command takes it. -/
def addWord (accepted : Accepted) (found : Words) (text : String) : Option Words :=
  match accepted.word, found.word with
  | some acceptable, none => if acceptable text then some { found with word := some text } else none
  | _, _ => none

/-- Words only. -/
def onlyWords (accepted : Accepted) : Words → List String → Option Words
  | found, [] => some found
  | found, text :: rest => (addWord accepted found text).bind (onlyWords accepted · rest)

/-- Reads the arguments of a command: what was found, or help that is asked for on the way. -/
def readWords (accepted : Accepted) : Words → List String → Option (Words ⊕ Topic)
  | found, [] => some (.inl found)
  | found, argument :: rest =>
    match classify argument with
    | .mark => (onlyWords accepted found rest).map .inl
    | .long name none =>
      if name = "help".toList then some (.inr accepted.topic)
      else if accepted.switch = some name ∧ found.switch = false then
        readWords accepted { found with switch := true } rest
      else none
    | .long _ (some _) => none
    | .letters ('h' :: _) => some (.inr accepted.topic)
    | .letters _ => none
    | .word text => (addWord accepted found text).bind (readWords accepted · rest)

/-- The command that the words make, or the help that was asked for. -/
def commandOf (accepted : Accepted) (make : Words → Option Command)
    (wrap : Command → Invocation) (arguments : List String) : Option Request :=
  match readWords accepted ⟨none, false⟩ arguments with
  | none => none
  | some (.inr topic) => some (.help topic)
  | some (.inl found) => (make found).map fun command => .run (wrap command)

/-! ### The command line -/

/-- The topic of a name. -/
def topicOf? (name : String) : Option Topic :=
  [("deploy", .deploy), ("undeploy", .undeploy), ("list", .list), ("history", .history),
    ("start", .start), ("help", .help)].lookup name

/-- The topic that the words after `help` lead to. No command has commands of its own. -/
def helpOn : List String → Option Request
  | [] => some (.help .program)
  | [name] => (topicOf? name).map .help
  | _ => none

/-- Reads a command by its name, with the arguments after it. -/
def readCommand (wrap : Command → Invocation) (name : String) (arguments : List String) :
    Option Request :=
  match topicOf? name with
  | some .deploy =>
    commandOf ⟨.deploy, some (· ≠ ""), none⟩ (fun found => found.word.map fun w => .deploy ⟨w⟩)
      wrap arguments
  | some .undeploy =>
    commandOf ⟨.undeploy, some fun _ => true, none⟩ (fun found => found.word.map .undeploy)
      wrap arguments
  | some .list => commandOf ⟨.list, none, none⟩ (fun _ => some .list) wrap arguments
  | some .history =>
    commandOf ⟨.history, some fun _ => true, none⟩ (fun found => found.word.map .history)
      wrap arguments
  | some .start =>
    commandOf ⟨.start, none, some "watch".toList⟩ (fun found => some (.start found.switch))
      wrap arguments
  | some .help => helpOn arguments
  | _ => none

/-- The options of the program that were read. -/
structure Options where
  dataDirectory : Option FilePath
  debug : Bool
deriving DecidableEq, Repr

/-- The options with a data directory, which can be given once and cannot be empty. -/
def Options.withDirectory (o : Options) (value : String) : Option Options :=
  if o.dataDirectory.isNone ∧ value ≠ "" then some { o with dataDirectory := some ⟨value⟩ }
  else none

/-- What letters after a dash do to the options, or what they ask for. -/
def readLetters : Options → List Char → Option (Options ⊕ Request)
  | o, [] => some (.inl o)
  | o, 'd' :: rest => if o.debug then none else readLetters { o with debug := true } rest
  | _, 'h' :: _ => some (.inr (.help .program))
  | _, 'V' :: _ => some (.inr .version)
  | _, _ => none

/-- Reads a command line from its options on. -/
def readOptions : Options → List String → Option Request
  | _, [] => none
  | o, argument :: rest =>
    match classify argument with
    | .mark => none
    | .word name => readCommand (⟨o.dataDirectory, o.debug, ·⟩) name rest
    | .letters letters =>
      match readLetters o letters with
      | none => none
      | some (.inr request) => some request
      | some (.inl o) => readOptions o rest
    | .long name (some value) =>
      if name = "data-dir".toList then (o.withDirectory (.ofList value)).bind (readOptions · rest)
      else none
    | .long name none =>
      if name = "help".toList then some (.help .program)
      else if name = "version".toList then some .version
      else if name = "debug".toList then
        if o.debug then none else readOptions { o with debug := true } rest
      else if name = "data-dir".toList then
        match rest with
        | [] => none
        | value :: rest =>
          match classify value with
          | .word text => (o.withDirectory text).bind (readOptions · rest)
          | _ => none
      else none

/-- What a command line asks for; nothing if it is a misuse. -/
def ofArguments (arguments : List String) : Option Request :=
  readOptions ⟨none, false⟩ arguments

end Request

end Hosting
