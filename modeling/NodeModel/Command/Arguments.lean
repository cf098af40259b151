/-! Arguments of the command line. -/
namespace NodeModel

inductive Command where
  /-- Resolves a schema and reports its size. -/
  | check (input : String)
  /-- Describes every class of a schema, or one. -/
  | inspect (input : String) (cls : Option String)
  /-- Writes the files of the targets. -/
  | generate (input : String) (output : Option String) (targets : List String)
deriving DecidableEq, Repr

structure Invocation where
  config : Option String
  command : Command
deriving DecidableEq, Repr

/-- Why there is no command to run. -/
inductive NoCommand where
  | usage
  | help
deriving DecidableEq, Repr

namespace Invocation

inductive Flag where
  | config
  | input
  | cls
  | output
  | target
deriving DecidableEq, Repr

namespace Flag

def long : Flag → String
  | .config => "config"
  | .input => "input"
  | .cls => "class"
  | .output => "output"
  | .target => "target"

def short : Flag → Option Char
  | .input => some 'i'
  | .output => some 'o'
  | .target => some 't'
  | .config | .cls => none

/-- Paths must not be empty. -/
def isPath : Flag → Bool
  | .config | .input | .output => true
  | .cls | .target => false

/-- All but targets can be given once. -/
def isRepeatable (flag : Flag) : Bool := flag = .target

end Flag

inductive Verb where
  | check
  | inspect
  | generate
deriving DecidableEq, Repr

namespace Verb

def all : List Verb := [.check, .inspect, .generate]

def name : Verb → String
  | .check => "check"
  | .inspect => "inspect"
  | .generate => "generate"

def ofName? (name : String) : Option Verb := all.find? (·.name == name)

def flags : Verb → List Flag
  | .check => [.config, .input]
  | .inspect => [.config, .input, .cls]
  | .generate => [.config, .input, .output, .target]

end Verb

/-- Flags with their values, in the order they were given. -/
abbrev Given := List (Flag × String)

namespace Given

def value? (given : Given) (flag : Flag) : Option String := (given.find? (·.1 = flag)).map (·.2)

def values (given : Given) (flag : Flag) : List String :=
  (given.filter (·.1 = flag)).map (·.2)

def give (given : Given) (flag : Flag) (value : String) : Except NoCommand Given :=
  if flag.isPath && value.isEmpty then .error .usage
  else if !flag.isRepeatable && (given.value? flag).isSome then .error .usage
  else .ok (given ++ [(flag, value)])

end Given

/-- What an argument is before its value is known. -/
inductive Shape where
  | flag (flag : Flag) (attached : Option String)
  | word (text : String)
  /-- Everything after it would be a word. -/
  | divider
  | help
  | unknown
deriving DecidableEq, Repr

private def longShape (allowed : List Flag) (cs : List Char) : Shape :=
  let name := String.ofList (cs.takeWhile (· != '='))
  let attached := (cs.dropWhile (· != '=')).tail?.map String.ofList
  if name == "help" && attached.isNone then .help
  else match allowed.find? (·.long == name) with
    | some flag => .flag flag attached
    | none => .unknown

/-- A value may follow its letter directly or after an equals sign. -/
private def shortShape (allowed : List Flag) (letter : Char) (rest : List Char) : Shape :=
  if letter = 'h' then .help
  else match allowed.find? (·.short == some letter) with
    | none => .unknown
    | some flag => .flag flag (match rest with
      | [] => none
      | '=' :: value => some (String.ofList value)
      | value => some (String.ofList value))

def Shape.of (allowed : List Flag) (argument : String) : Shape :=
  match argument.toList with
  | ['-', '-'] => .divider
  | '-' :: '-' :: rest => longShape allowed rest
  | '-' :: letter :: rest => shortShape allowed letter rest
  | _ => .word argument

/-- Whether an argument can be the value of the flag before it. -/
def isValue (argument : String) : Bool :=
  match argument.toList with
  | '-' :: _ :: _ => false
  | _ => true

/-- Reads flags up to the first word, which is left with what follows it. -/
def readFlags (allowed : List Flag) (given : Given) :
    List String → Except NoCommand (Given × List String)
  | [] => .ok (given, [])
  | argument :: rest =>
    match Shape.of allowed argument, rest with
    | .flag flag (some value), rest => do readFlags allowed (← given.give flag value) rest
    | .flag flag none, value :: rest =>
      if isValue value then do readFlags allowed (← given.give flag value) rest
      else .error .usage
    | .flag _ none, [] => .error .usage
    | .word _, _ => .ok (given, argument :: rest)
    | .divider, [] => .ok (given, [])
    | .divider, _ :: _ => .error .usage
    | .help, _ => .error .help
    | .unknown, _ => .error .usage

/-- The command of a verb. No word may follow its flags, and the input is required. -/
def readVerb (verb : Verb) (before : Given) (arguments : List String) :
    Except NoCommand Invocation := do
  let (given, words) ← readFlags verb.flags [] arguments
  if !words.isEmpty then throw .usage
  match given.value? .input with
  | none => throw .usage
  | some input =>
    let command := match verb with
      | .check => Command.check input
      | .inspect => .inspect input (given.value? .cls)
      | .generate => .generate input (given.value? .output) (given.values .target)
    return ⟨(given.value? .config).or (before.value? .config), command⟩

def read (arguments : List String) : Except NoCommand Invocation := do
  match ← readFlags [.config] [] arguments with
  | (_, []) => throw .usage
  | (given, word :: rest) =>
    match Verb.ofName? word with
    | some verb => readVerb verb given rest
    | none =>
      if word == "help" && (rest.isEmpty || rest.length == 1 && rest.all (Verb.ofName? · |>.isSome))
      then throw .help else throw .usage

end Invocation

end NodeModel
