import SourceDocs.CommandLine.Options

/-!
What the tool can be asked to do, and the arguments that ask for it. The first argument decides: the
name of a subcommand there starts that subcommand, anywhere else it is a path.
-/

namespace SourceDocs.CommandLine

inductive Format where
  | summary
  | json
  | markdown
deriving DecidableEq, Repr

namespace Format

def name : Format → String
  | summary => "summary"
  | json => "json"
  | markdown => "markdown"

def extension : Format → Text
  | summary => "txt".toList
  | json => "json".toList
  | markdown => "md".toList

def ofName? (text : Text) : Option Format :=
  [summary, json, markdown].find? (·.name.toList = text)

end Format

structure ProcessArguments where
  paths : List Text
  language : Option Text
  configuration : Option Text
  format : Format
  outputDirectory : Option Text
  noGitignore : Bool
  threads : Option Nat
  verbose : Bool
deriving DecidableEq, Repr

inductive Invocation where
  | process (arguments : ProcessArguments)
  | init (output : Text) (force : Bool)
  | languages (configuration : Option Text)
deriving DecidableEq, Repr

/-- A natural number below 2^64 in decimal digits, with or without a plus sign. -/
def count? (text : Text) : Option Nat :=
  let digits := (['+'].isPrefixOf? text).getD text
  let number := digits.foldl (fun number c => 10 * number + (c.toNat - 48)) 0
  if digits.isEmpty || !digits.all Char.isDigit || Nat.pow 2 64 ≤ number then none else some number

def anyText : Role := .value fun _ => none

def somePath : Role := .value fun text => if text.isEmpty then some .invalidValue else none

def formatName : Role :=
  .value fun text => if (Format.ofName? text).isSome then none else some .invalidValue

def threadCount : Role :=
  .value fun text => if (count? text).isSome then none else some .valueValidation

def helpOption : OptionSpec := ⟨"help", some 'h', .request .displayHelp⟩

def processSpecification : Specification where
  options := [
    ⟨"language", some 'l', anyText⟩,
    ⟨"config", some 'c', somePath⟩,
    ⟨"format", some 'f', formatName⟩,
    ⟨"output-dir", some 'o', somePath⟩,
    ⟨"no-gitignore", none, .flag⟩,
    ⟨"threads", some 'j', threadCount⟩,
    ⟨"verbose", some 'v', .flag⟩,
    helpOption,
    ⟨"version", some 'V', .request .displayVersion⟩]
  operands := true

def initSpecification : Specification where
  options := [⟨"output", some 'o', somePath⟩, ⟨"force", some 'f', .flag⟩, helpOption]
  operands := false

def languagesSpecification : Specification where
  options := [⟨"config", some 'c', somePath⟩, helpOption]
  operands := false

def defaultOutput : Text := "literate.toml".toList

def subcommands : List Text := ["init".toList, "languages".toList, "help".toList]

/-- The answer to a request for help on the given subcommands: none has subcommands of its own. -/
def helpOn : List Text → UsageError
  | [] => .displayHelp
  | [name] => if subcommands.contains name then .displayHelp else .invalidSubcommand
  | _ :: _ :: _ => .invalidSubcommand

def ProcessArguments.ofProgress (progress : Progress) : ProcessArguments where
  paths := progress.operands
  language := progress.value? "language"
  configuration := progress.value? "config"
  format := ((progress.value? "format").bind Format.ofName?).getD .summary
  outputDirectory := progress.value? "output-dir"
  noGitignore := progress.hasFlag "no-gitignore"
  threads := (progress.value? "threads").bind count?
  verbose := progress.hasFlag "verbose"

def Invocation.ofArguments (arguments : List Text) : Except UsageError Invocation :=
  let run : Except UsageError Invocation :=
    (processSpecification.read arguments).map (.process <| .ofProgress ·)
  match arguments with
  | [] => run
  | first :: rest =>
    if first = "init".toList then
      (initSpecification.read rest).map fun progress =>
        .init ((progress.value? "output").getD defaultOutput) (progress.hasFlag "force")
    else if first = "languages".toList then
      (languagesSpecification.read rest).map fun progress =>
        .languages (progress.value? "config")
    else if first = "help".toList then .error (helpOn rest)
    else run

end SourceDocs.CommandLine
