import SourceDocs.Text.Basic

/-!
Reading options and operands off a list of arguments. An option is given by its long name or its
letter; letters may stand together behind one dash. A value is attached, with or without an equals
sign, or is the next argument. A value that is an argument of its own is examined only when something
else has to be decided, so an unknown option behind it is reported first.
-/

namespace SourceDocs.CommandLine

inductive UsageError where
  | unknownArgument
  | invalidValue
  | valueValidation
  | argumentConflict
  | tooManyValues
  | invalidSubcommand
  | displayHelp
  | displayVersion
deriving DecidableEq, Repr

inductive Role where
  | flag
  | value (check : Text → Option UsageError)
  | request (answer : UsageError)

structure OptionSpec where
  long : String
  short : Option Char
  role : Role

structure Specification where
  options : List OptionSpec
  operands : Bool

/-- What has been read off the arguments so far; options go by their long names. -/
structure Progress where
  flags : List String
  values : List (String × Text)
  operands : List Text
  /-- An option that takes a value, with the argument behind it once that is known to be one. -/
  pending : Option (OptionSpec × Option Text)

namespace Progress

def start : Progress := ⟨[], [], [], none⟩

/-- Takes a value for an option: an option is given once, and its value has to pass its check. -/
def store (option : OptionSpec) (value : Text) (progress : Progress) :
    Except UsageError Progress :=
  if (progress.values.lookup option.long).isSome then .error .argumentConflict
  else match option.role with
    | .value check =>
      match check value with
      | some error => .error error
      | none => .ok { progress with values := progress.values ++ [(option.long, value)] }
    | _ => .error .tooManyValues

def settle (progress : Progress) : Except UsageError Progress :=
  match progress.pending with
  | none => .ok progress
  | some (_, none) => .error .invalidValue
  | some (option, some value) => { progress with pending := none }.store option value

def meet (option : OptionSpec) (progress : Progress) : Except UsageError Progress := do
  let progress ← progress.settle
  match option.role with
  | .flag =>
    if progress.flags.contains option.long then throw .argumentConflict
    return { progress with flags := progress.flags ++ [option.long] }
  | .value _ => return { progress with pending := some (option, none) }
  | .request answer => throw answer

def meetWith (option : OptionSpec) (value : Text) (progress : Progress) :
    Except UsageError Progress :=
  match option.role with
  | .value _ => progress.settle.bind (·.store option value)
  | _ => .error .tooManyValues

def long (specification : Specification) (argument : Text) (progress : Progress) :
    Except UsageError Progress :=
  let name := argument.takeWhile (· ≠ '=')
  match specification.options.find? (·.long.toList = name) with
  | none => .error .unknownArgument
  | some option =>
    match argument.dropWhile (· ≠ '=') with
    | [] => progress.meet option
    | _ :: value => progress.meetWith option value

/-- Takes letters behind one dash; after the letter of an option that takes a value, the rest is
that value. -/
def letters (specification : Specification) : Text → Progress → Except UsageError Progress
  | [], progress => .ok progress
  | letter :: rest, progress =>
    match specification.options.find? (·.short = some letter) with
    | none => .error .unknownArgument
    | some option =>
      match option.role, rest with
      | .value _, '=' :: value => progress.meetWith option value
      | .value _, c :: value => progress.meetWith option (c :: value)
      | _, _ => (progress.meet option).bind (letters specification rest)

def operand (specification : Specification) (argument : Text) (progress : Progress) :
    Except UsageError Progress :=
  if specification.operands then
    progress.settle.map fun progress =>
      { progress with operands := progress.operands ++ [argument] }
  else .error .unknownArgument

def plain (specification : Specification) (argument : Text) (progress : Progress) :
    Except UsageError Progress :=
  match progress.pending with
  | some (option, none) => .ok { progress with pending := some (option, some argument) }
  | _ => progress.operand specification argument

def argument (specification : Specification) (given : Text) (progress : Progress) :
    Except UsageError Progress :=
  match given with
  | '-' :: '-' :: name => progress.long specification name
  | '-' :: c :: rest => progress.letters specification (c :: rest)
  | _ => progress.plain specification given

/-- Takes all arguments; those after two dashes are operands. -/
def arguments (specification : Specification) : List Text → Progress → Except UsageError Progress
  | [], progress => progress.settle
  | ['-', '-'] :: rest, progress =>
    (rest.foldlM (fun progress given => operand specification given progress) progress).bind settle
  | given :: rest, progress =>
    (progress.argument specification given).bind (arguments specification rest)

def hasFlag (progress : Progress) (name : String) : Bool := progress.flags.contains name

def value? (progress : Progress) (name : String) : Option Text := progress.values.lookup name

end Progress

def Specification.read (specification : Specification) (given : List Text) :
    Except UsageError Progress :=
  Progress.start.arguments specification given

end SourceDocs.CommandLine
