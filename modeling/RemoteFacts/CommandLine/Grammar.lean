/-!
# Command lines

A command has options, operands and commands below it; a command line names a command by the names on the
way to it, with options anywhere between them. Everything after `--` is an operand.

* `Grammar.Command`, `Grammar.Opt`, `Grammar.Operands` : what a command takes;
* `Grammar.Reading` : what has been read of a command line, `Grammar.Standing` what has been found wrong in it;
* `Grammar.Reading.word` : one more word;
* `Grammar.read` : a whole command line.

Options of one letter may share a dash, and a value may follow its option at once, after `=`, or as the next
word. An option that takes a value is given once in each command it is given for; where one is given for
several commands on the way, the innermost counts.

A value that is a word of its own is looked at when the next word is read. If that names a command, the command
comes first: where it asks for the version or for help, a value that cannot be taken is never found out.
-/

namespace RemoteFacts.CommandLine.Grammar

/-- What an option does. -/
inductive Effect where
  /-- Is given or not. -/
  | flag
  /-- May be given any number of times. -/
  | count
  /-- Takes a value that is not empty, or is one of `choices` if there are any. -/
  | value (choices : List String)
  /-- Asks for the version instead of anything else. -/
  | version
  /-- Asks for help instead of anything else. -/
  | help
  deriving DecidableEq, Repr

/-- An option. -/
structure Opt where
  long : String
  short : Option Char
  effect : Effect
  deriving Repr

/-- The words that a command takes besides options. -/
inductive Operands where
  /-- Exactly these, each of which may or may not be empty. -/
  | each (mayBeEmpty : List Bool)
  /-- At least one, all of them after `--`. -/
  | afterDashes
  deriving Repr

/-- A command. -/
inductive Command where
  | mk (name : String) (options : List Opt) (operands : Operands) (commands : List Command)
    (needsCommand : Bool)

namespace Command

/-- The name of a command. -/
def name : Command → String
  | mk name .. => name

/-- The options of a command. -/
def options : Command → List Opt
  | mk _ options .. => options

/-- The operands of a command. -/
def operands : Command → Operands
  | mk _ _ operands .. => operands

/-- The commands below a command. -/
def commands : Command → List Command
  | mk _ _ _ commands _ => commands

/-- Whether one of the commands below has to be named. -/
def needsCommand : Command → Bool
  | mk _ _ _ _ b => b

/-- The option with a name of several letters. -/
def long? (c : Command) (name : String) : Option Opt := c.options.find? (·.long == name)

/-- The option with a name of one letter. -/
def short? (c : Command) (letter : Char) : Option Opt := c.options.find? (·.short == some letter)

end Command

/-- What a command line asks for. -/
inductive Request where
  /-- It follows no rule of the grammar. -/
  | misuse
  /-- The version of the command named so. -/
  | version (name : String)
  /-- Help on the command named so. -/
  | help (name : String)
  /-- A command, named by the path to it, with the values of its options, the flags given, and operands. -/
  | run (path : List String) (values : List (String × String)) (flags : List String)
    (operands : List String)
  deriving Repr

/-- What has been found wrong in what has been read. -/
inductive Standing where
  | sound
  /-- The last word is a value that cannot be taken. -/
  | refused
  /-- The last word before the name of a command was a value that cannot be taken. -/
  | lost
  deriving DecidableEq, Repr

/-- The standing once a command has been named. -/
def Standing.descend : Standing → Standing
  | .sound => .sound
  | _ => .lost

/-- What has been read of a command line. -/
structure Reading where
  /-- The command that was named last. -/
  command : Command
  /-- The names on the way to it. -/
  path : List String
  /-- The values of options, the last one given first. -/
  values : List (String × String)
  flags : List String
  /-- The options that may not be given again for this command. -/
  used : List String
  operands : List String
  /-- The option whose value is the next word. -/
  pending : Option Opt
  /-- Whether everything is an operand from here on. -/
  dashes : Bool
  standing : Standing

namespace Reading

/-- Nothing has been read. -/
def start (c : Command) : Reading := ⟨c, [], [], [], [], [], none, false, .sound⟩

/-- The name of the command that was named last, as its version shows it. -/
def fullName (r : Reading) (root : String) : String := "-".intercalate (root :: r.path)

/-- Gives a value to an option. -/
def give (r : Reading) (o : Opt) (value : String) : Option Reading :=
  match o.effect with
  | .value choices =>
    let fits := if choices.isEmpty then !value.isEmpty else choices.contains value
    if fits && !r.used.contains o.long then
      some { r with
        values := (o.long, value) :: r.values
        used := o.long :: r.used
        pending := none }
    else none
  | _ => none

/-- Gives an option the word after it; whether that can be taken shows with the word that follows. -/
def giveWord (r : Reading) (o : Opt) (value : String) : Reading :=
  (r.give o value).getD { r with pending := none, standing := .refused }

/-- Notes that an option without value is given. -/
def mark (r : Reading) (o : Opt) : Option Reading :=
  match o.effect with
  | .flag =>
    if r.used.contains o.long then none
    else some { r with flags := o.long :: r.flags, used := o.long :: r.used }
  | .count => some { r with flags := o.long :: r.flags }
  | _ => none

/-- What becomes of a reading with one more word. -/
inductive Next where
  | more (r : Reading)
  | done (q : Request)

/-- Goes on if there is something to go on with. -/
def Next.ofOption : Option Reading → Next
  | some r => more r
  | none => done .misuse

/-- An option without a value after it in the same word. -/
def bare (r : Reading) (root : String) (o : Opt) : Next :=
  match o.effect with
  | .version => .done (.version (r.fullName root))
  | .help => .done (.help (r.fullName root))
  | .value _ => .more { r with pending := some o }
  | _ => .ofOption (r.mark o)

/-- The letters of a word with one dash. -/
def letters (root : String) (r : Reading) : List Char → Next
  | [] => .more r
  | c :: cs =>
    match r.command.short? c with
    | none => .done .misuse
    | some o =>
      match o.effect with
      | .value _ =>
        match cs with
        | [] => r.bare root o
        | '=' :: cs => .ofOption (r.give o (String.ofList cs))
        | cs => .ofOption (r.give o (String.ofList cs))
      | _ =>
        match r.bare root o with
        | .more r => letters root r cs
        | .done q => .done q

/-- A word with two dashes: the name of an option, and its value if it has an equals sign. -/
def longOption (root : String) (r : Reading) (cs : List Char) : Next :=
  let name := String.ofList (cs.takeWhile (· != '='))
  match r.command.long? name with
  | none => .done .misuse
  | some o =>
    match cs.dropWhile (· != '=') with
    | '=' :: value =>
      match o.effect with
      | .value _ => .ofOption (r.give o (String.ofList value))
      | _ => .done .misuse
    | _ => r.bare root o

/-- A word that is no option. -/
def operand (r : Reading) (word : String) : Next :=
  match r.command.operands with
  | .afterDashes => if r.dashes then .more { r with operands := r.operands ++ [word] } else .done .misuse
  | .each mayBeEmpty =>
    match mayBeEmpty[r.operands.length]? with
    | none => .done .misuse
    | some empty =>
      if word.isEmpty && !empty then .done .misuse
      else .more { r with operands := r.operands ++ [word] }

/-- A command below the one that was named last. -/
def descend (r : Reading) (c : Command) : Reading :=
  { r with command := c, path := r.path ++ [c.name], used := [], standing := r.standing.descend }

/-- The command that a word names, if it names one below the one that was named last. -/
def below? (r : Reading) (w : String) : Option Command :=
  if r.dashes || r.pending.isSome then none else r.command.commands.find? (·.name == w)

/-- A word that names no command. -/
def plain (root : String) (r : Reading) (w : String) : Next :=
  if r.standing = .refused then .done .misuse
  else if r.dashes then r.operand w
  else
    match r.pending, w.toList with
    | none, ['-', '-'] => .more { r with dashes := true }
    | none, '-' :: '-' :: cs => r.longOption root cs
    | none, '-' :: c :: cs => r.letters root (c :: cs)
    | none, _ => r.operand w
    | some _, '-' :: _ :: _ => .done .misuse
    | some o, _ => .more (r.giveWord o w)

/-- One more word. -/
def word (root : String) (r : Reading) (w : String) : Next :=
  match r.below? w with
  | some c => .more (r.descend c)
  | none => r.plain root w

/-- What is asked for when no word follows. -/
def finish (r : Reading) : Request :=
  let complete := match r.command.operands with
    | .each mayBeEmpty => r.operands.length == mayBeEmpty.length
    | .afterDashes => !r.operands.isEmpty
  if r.pending.isSome || r.command.needsCommand || !complete || decide (r.standing ≠ .sound) then .misuse
  else .run r.path r.values r.flags r.operands

end Reading

/-- Whether a word is the one that asks for help on the commands below. -/
def Reading.asksHelp (r : Reading) (w : String) : Bool :=
  w == "help" && !r.dashes && r.pending.isNone && !r.command.commands.isEmpty

/-- Help on the command that words name below another one. -/
def helpOn (name : String) (c : Command) : List String → Request
  | [] => .help name
  | w :: ws =>
    match c.commands.find? (·.name == w) with
    | some c => helpOn (name ++ "-" ++ w) c ws
    | none => if w == "help" && ws.isEmpty && !c.commands.isEmpty then .help (name ++ "-help") else .misuse

/-- What the words of a command line ask for, after those that have been read. -/
def readFrom (root : String) (r : Reading) : List String → Request
  | [] => r.finish
  | w :: ws =>
    if r.asksHelp w then helpOn (r.fullName root) r.command ws
    else match r.word root w with
      | .more r => readFrom root r ws
      | .done q => q

/-- What the words of a command line ask for. -/
def read (c : Command) (words : List String) : Request := readFrom c.name (Reading.start c) words

end RemoteFacts.CommandLine.Grammar
