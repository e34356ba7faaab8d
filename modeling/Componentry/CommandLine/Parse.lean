import Componentry.CommandLine.Help
import Componentry.Number.Numeral
import Componentry.Text.Quoted

/-!
# Reading command lines

Options may stand before and after operands. A value follows its option, or is attached to it:
behind an equals sign, or directly behind a short name. Long names may be cut as long as they stay
unique, and short switches may share a dash. Two dashes end the options.
-/

namespace Componentry.CommandLine

/-- What an argument looks like. -/
inductive Mark where
  | plain
  /-- The two dashes that end the options. -/
  | separator
  /-- An option, as one of its names, with what is attached to it; `none` if there is no such
  option. -/
  | option (found : Option OptionSpec) (name : Text) (attached : Option Text)
  deriving DecidableEq, Repr

/-- Is it an option? -/
def Mark.isOption : Mark → Bool
  | .option _ _ _ => true
  | _ => false

/-- The name that an option stands under. -/
def Mark.name : Mark → Text
  | .option _ name _ => name
  | _ => ""

/-- Why reading ends early. -/
inductive Halt where
  /-- A help text was asked for. -/
  | help (text : Text)
  /-- The arguments are wrong: the usage, and what is wrong. -/
  | wrong (usage title message : Text)
  deriving DecidableEq, Repr

/-- The value of an option. -/
inductive Value where
  | on
  | text (s : Text)
  | number (n : Int)
  /-- Two dashes, which count for nothing. -/
  | nothing
  deriving DecidableEq, Repr

/-- What has been read. -/
structure Reading where
  values : List (Text × Value) := []
  operand : Option (List Text) := none
  /-- The arguments that mean nothing. -/
  others : List Text := []
  deriving DecidableEq, Repr

/-- What a command line consists of, while it is read. -/
structure Grammar where
  title : Text
  usage : Text
  help : Text
  options : List OptionSpec
  /-- How many of the arguments an operand takes; zero where none can start. -/
  operandSize : List Mark → Nat
  /-- The name of the operand if there is one. -/
  operandName : Option Text
  /-- Does the operand keep the two dashes before it? -/
  keepsSeparator : Bool

namespace Grammar

/-- The options by name. -/
def byName (g : Grammar) : List (Text × OptionSpec) :=
  g.options.flatMap fun o => o.names.map fun n => (n, o)

/-- The option of that name. -/
def option? (g : Grammar) (name : Text) : Option OptionSpec := g.byName.lookup name

/-- Ends with a message. -/
def wrong {α : Type} (g : Grammar) (message : Text) : Except Halt α :=
  .error (.wrong g.usage g.title message)

/-- Ends with a message about an option. -/
def wrongOption {α : Type} (g : Grammar) (o : OptionSpec) (message : Text) : Except Halt α :=
  g.wrong ("argument " ++ o.title ++ ": " ++ message)

/-- A name and what follows its first equals sign. -/
def splitEquals (arg : Text) : Text × Option Text :=
  match Text.cut? "=" arg with
  | some (name, value) => (name, some value)
  | none => (arg, none)

/-- The options that an argument may mean, by a cut long name or a short name with a value. -/
def candidates (g : Grammar) (arg : Text) : List Mark :=
  if Text.startsWith "--" arg then
    let (start, attached) := splitEquals arg
    (g.byName.filter fun (n, _) => Text.startsWith start n).map fun (n, o) =>
      .option (some o) n attached
  else
    g.byName.filterMap fun (n, o) =>
      if n = arg.take 2 then
        some (.option (some o) n (some (arg.drop 2)))
      else if Text.startsWith arg n then some (.option (some o) n none)
      else none

/-- A dash and a number, whole or with a point. -/
def isNegativeNumber (arg : Text) : Bool :=
  let isDigit (c : CodePoint) : Bool := (digitValue? c).isSome
  match (Text.before? "\n" arg).getD arg with
  | .char '-' :: s =>
    match s.dropWhile isDigit with
    | [] => !s.isEmpty
    | .char '.' :: decimals => !decimals.isEmpty && decimals.all isDigit
    | _ => false
  | _ => false

/-- What an argument looks like. -/
def markOf (g : Grammar) (arg : Text) : Except Halt Mark :=
  if arg.head? ≠ some '-' then .ok .plain
  else
    match g.option? arg with
    | some o => .ok (.option (some o) arg none)
    | none =>
      if arg.length = 1 then .ok .plain
      else
        let (name, attached) := splitEquals arg
        match attached.bind fun _ => g.option? name with
        | some o => .ok (.option (some o) name attached)
        | none =>
          match g.candidates arg with
          | [mark] => .ok mark
          | [] =>
            if isNegativeNumber arg || arg.has ' ' then .ok .plain
            else .ok (.option none arg none)
          | several =>
            g.wrong ("ambiguous option: " ++ arg ++ " could match " ++
              Text.join ", " (several.map Mark.name))

/-- What arguments look like. Behind two dashes all of them are plain. -/
def markAll (g : Grammar) : List Text → Except Halt (List (Text × Mark))
  | [] => .ok []
  | arg :: rest =>
    if arg = "--" then .ok ((arg, .separator) :: rest.map fun a => (a, .plain))
    else do
      let mark ← g.markOf arg
      return (arg, mark) :: (← g.markAll rest)

/-- Takes the value of an option. -/
def take (g : Grammar) (r : Reading) (o : OptionSpec) (value : Option Text) :
    Except Halt Reading :=
  match o.kind, value with
  | .help, _ => .error (.help g.help)
  | .switch, _ => .ok { r with values := (o.key, .on) :: r.values }
  | _, some "--" => .ok { r with values := (o.key, .nothing) :: r.values }
  | .text, some v => .ok { r with values := (o.key, .text v) :: r.values }
  | .number, some v =>
    match Numeral.decimal v with
    | .ok n => .ok { r with values := (o.key, .number n) :: r.values }
    | .error _ => g.wrongOption o ("invalid int value: " ++ quote v)
  | _, none => .ok r

/-- Takes switches and then an option with a value. -/
def takeAll (g : Grammar) (r : Reading) : List (OptionSpec × Option Text) → Except Halt Reading
  | [] => .ok r
  | (o, value) :: rest => do g.takeAll (← g.take r o value) rest

/-- What one argument full of short options means. -/
structure Cluster where
  taken : List (OptionSpec × Option Text) := []
  /-- The option that still wants a value from the next argument. -/
  open_ : Option OptionSpec := none

/-- What an option means to which nothing is attached. -/
def alone (taken : List (OptionSpec × Option Text)) (o : OptionSpec) : Cluster :=
  if o.takesValue then { taken, open_ := some o } else { taken := taken ++ [(o, none)] }

/-- Reads short options that share a dash. `o` stands under a short name before `attached`, of which
every character must be a short name in its turn unless the option before it takes a value. -/
def cluster (g : Grammar) (taken : List (OptionSpec × Option Text)) (o : OptionSpec) :
    (attached : Text) → Except Halt Cluster
  | [] => g.wrongOption o ("ignored explicit argument " ++ quote "")
  | c :: rest =>
    if o.takesValue then .ok { taken := taken ++ [(o, some (c :: rest))] }
    else
      match g.option? (['-', c]) with
      | none => g.wrongOption o ("ignored explicit argument " ++ quote (c :: rest))
      | some next =>
        let taken := taken ++ [(o, none)]
        match rest with
        | [] => .ok (alone taken next)
        | c' :: rest' => g.cluster taken next (c' :: rest')

/-- What an argument means that is an option. -/
def clusterOf (g : Grammar) (o : OptionSpec) (name : Text) : Option Text → Except Halt Cluster
  | none => .ok (alone [] o)
  | some value =>
    if o.takesValue then .ok { taken := [(o, some value)] }
    else if Text.startsWith "--" name then
      g.wrongOption o ("ignored explicit argument " ++ quote value)
    else g.cluster [] o value

/-- Takes an option, with its value from the arguments behind it if it wants one: what has been
read, and the arguments left. -/
def takeOption (g : Grammar) (r : Reading) (arg : Text) (mark : Mark)
    (later : List (Text × Mark)) : Except Halt (Reading × List (Text × Mark)) :=
  match mark with
  | .option (some o) name attached => do
    let c ← g.clusterOf o name attached
    match c.open_, later with
    | none, _ => return (← g.takeAll r c.taken, later)
    | some o, (value, .plain) :: rest => return (← g.takeAll r (c.taken ++ [(o, some value)]), rest)
    | some o, _ => g.wrongOption o "expected one argument"
  | _ => .ok ({ r with others := r.others ++ [arg] }, later)

/-- Takes the operand at the start of the arguments if there can be one: how many arguments it
takes, and what has been read. -/
def takeOperand (g : Grammar) (r : Reading) (args : List (Text × Mark)) : Nat × Reading :=
  if r.operand.isSome then (0, r)
  else
    match g.operandSize (args.map Prod.snd) with
    | 0 => (0, r)
    | n =>
      let taken := (args.take n).filter fun (_, m) => g.keepsSeparator || m ≠ .separator
      (n, { r with operand := some (taken.map Prod.fst) })

/-- Reads arguments. -/
def readFrom (g : Grammar) : (fuel : Nat) → Reading → List (Text × Mark) → Except Halt Reading
  | 0, r, _ => .ok r
  | fuel + 1, r, args =>
    match args.span fun (_, m) => !m.isOption with
    | (_, []) =>
      let (n, r) := g.takeOperand r args
      .ok { r with others := r.others ++ (args.drop n).map Prod.fst }
    | (before, (arg, mark) :: later) =>
      match before with
      | [] => do
        let (r, left) ← g.takeOption r arg mark later
        g.readFrom fuel r left
      | _ :: _ =>
        let (n, r) := g.takeOperand r args
        if n = 0 then do
          let r := { r with others := r.others ++ before.map Prod.fst }
          let (r, left) ← g.takeOption r arg mark later
          g.readFrom fuel r left
        else g.readFrom fuel r (args.drop n)

/-- Reads arguments; the operand must be there. -/
def read (g : Grammar) (args : List Text) : Except Halt Reading := do
  let marked ← g.markAll args
  let r ← g.readFrom (2 * args.length + 1) {} marked
  match g.operandName, r.operand with
  | some name, none => g.wrong ("the following arguments are required: " ++ name)
  | _, _ => return r

end Grammar

/-- The size of an operand that is one argument, with two dashes before or behind it. -/
def oneOperand : List Mark → Nat
  | .plain :: .separator :: _ => 2
  | .plain :: _ => 1
  | .separator :: .plain :: _ => 2
  | _ => 0

/-- The size of an operand that is one argument and everything behind it. -/
def restOperand (marks : List Mark) : Nat :=
  match marks with
  | .plain :: _ => marks.length
  | .separator :: .plain :: _ => marks.length
  | _ => 0

/-- The arguments of a command. -/
def Command.grammar (c : Command) (program : Text) : Grammar where
  title := c.title program
  usage := c.usage program
  help := c.help program
  options := c.options
  operandSize := if c.operand.isSome then oneOperand else fun _ => 0
  operandName := c.operand.map OperandSpec.key
  keepsSeparator := false

/-- The arguments of a program. -/
def ProgramSpec.grammar (p : ProgramSpec) : Grammar where
  title := p.name
  usage := p.usage
  help := p.help
  options := p.options
  operandSize := restOperand
  operandName := some "command"
  keepsSeparator := true

/-- A command with what was given to it. -/
structure Invocation where
  command : Text
  values : List (Text × Value)
  operand : Option Text := none
  deriving DecidableEq, Repr

/-- Reads the arguments of a program. -/
def ProgramSpec.read (p : ProgramSpec) (args : List Text) : Except Halt Invocation := do
  let outer ← p.grammar.read args
  match outer.operand with
  | some (name :: args) =>
    match p.commands.find? fun c => c.name == name with
    | none =>
      p.grammar.wrong ("argument command: invalid choice: " ++ quote name ++ " (choose from " ++
        Text.join ", " (p.commands.map fun c => quote c.name) ++ ")")
    | some command =>
      let inner ← (command.grammar p.name).read args
      match outer.others ++ inner.others with
      | [] =>
        return { command := name, values := inner.values ++ outer.values
                 operand := inner.operand.bind List.head? }
      | others => p.grammar.wrong ("unrecognized arguments: " ++ Text.join " " others)
  | _ => p.grammar.wrong "the following arguments are required: command"

end Componentry.CommandLine
