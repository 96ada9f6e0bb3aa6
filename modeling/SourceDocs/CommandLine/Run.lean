import SourceDocs.CommandLine.Invocation
import SourceDocs.Configuration.Discovery
import SourceDocs.Json.Document
import SourceDocs.Markdown
import SourceDocs.Processing

/-!
Runs of the tool: from arguments and a file system to output, an exit code and the file system after
the run.
-/

namespace SourceDocs.CommandLine

/-- What a run has done so far. The log holds what is shown of it: messages of at least a given level,
with their first lines. The further lines of a message stand in the error output. -/
structure Session where
  fs : FileSystem
  level : LogLevel
  stdout : String
  stderr : String
  log : List LogLine

namespace Session

def start (fs : FileSystem) (level : LogLevel) : Session := ⟨fs, level, "", "", []⟩

def print (text : String) (session : Session) : Session :=
  { session with stdout := session.stdout ++ text }

def printLine (text : String) (session : Session) : Session := session.print (text ++ "\n")

def complain (text : String) (session : Session) : Session :=
  { session with stderr := session.stderr ++ text ++ "\n" }

def report (lines : List LogLine) (session : Session) : Session :=
  let shown := lines.filter (session.level.rank ≤ ·.level.rank)
  (shown.flatMap LogLine.furtherLines).foldl (fun session line => session.complain line)
    { session with log := session.log ++ shown.map LogLine.firstLine }

def inform (message : String) (session : Session) : Session :=
  session.report [⟨.info, message⟩]

end Session

structure Outcome where
  exitCode : Nat
  session : Session

/-- The configuration of a run: of the file that is given, else of the files that are found, else
the one that comes with the tool. -/
def loadConfiguration (fs : FileSystem) (file : Option Text) :
    Logged (Except String Configuration) :=
  match file with
  | some path =>
    ⟨(Configuration.ofFile fs path).mapError fun error =>
      s!"Failed to load config file: {String.ofList path}: {error.messageWithCause}", []⟩
  | none =>
    let ⟨found, log⟩ := Configuration.discover fs fs.workingPath
    match found with
    | .error error =>
      ⟨.error s!"Failed to load discovered configuration: {error.messageWithCause}", log⟩
    | .ok (some discovered) =>
      ⟨.ok discovered.configuration, log ++ discovered.files.map fun path =>
        ⟨.info, s!"Using configuration {String.ofList path}"⟩⟩
    | .ok none =>
      ⟨Configuration.builtin.mapError fun error =>
        s!"Default configuration is invalid: {error.messageWithCause}",
        log ++ [⟨.info, "No configuration found, using default grammars"⟩]⟩

def loadRegistry (fs : FileSystem) (file : Option Text) : Logged (Except String Registry) :=
  let ⟨loaded, log⟩ := loadConfiguration fs file
  ⟨loaded.bind fun configuration =>
    (Registry.ofConfiguration configuration).mapError (·.messageWithCause), log⟩

def fail (message : String) (session : Session) : Outcome :=
  ⟨1, session.complain s!"Error: {message}"⟩

/-- Makes the missing parents of a file and writes it. The messages name what was tried. -/
def writeFile (fs : FileSystem) (path : Text) (content : ByteArray) (writing : String) :
    Except String FileSystem :=
  let prepared : Except String FileSystem := match Path.parent? path with
    | none => .ok fs
    | some parent =>
      (fs.makeDirAll parent).mapError fun error =>
        s!"Failed to create directory: {String.ofList parent}: {error.message}"
  prepared.bind fun fs =>
    (fs.write path content).mapError fun error =>
      s!"{writing} {String.ofList path}: {error.message}"

def runInit (fs : FileSystem) (output : Text) (force : Bool) : Outcome :=
  let session := Session.start fs .warn
  if fs.fileExists output && !force then
    fail (s!"Configuration file already exists: {String.ofList output}. " ++
      "Use --force to overwrite.") session
  else match writeFile fs output Configuration.Builtin.template.toUTF8
      "Failed to write config file:" with
    | .error message => fail message session
    | .ok written =>
      ⟨0, { session with fs := written }.printLine
        s!"Created configuration file: {String.ofList output}"⟩

def padded (width : Nat) (text : Text) : String :=
  String.ofList (text ++ List.replicate (width - text.length) ' ')

def languageLine (id : Text) (grammar : Grammar) : String :=
  padded 12 id ++ " " ++ padded 12 grammar.name ++ " " ++
  ", ".intercalate (grammar.extensions.map String.ofList)

def runLanguages (fs : FileSystem) (file : Option Text) : Outcome :=
  let ⟨loaded, log⟩ := loadRegistry fs file
  let session := (Session.start fs .warn).report log
  match loaded with
  | .error message => fail message session
  | .ok registry =>
    let lines := registry.identifiers.filterMap fun id =>
      (registry.get? id).map (languageLine id)
    ⟨0, lines.foldl (fun session line => session.printLine line) session⟩

def summary (path : Text) (document : Document) : String :=
  s!"{String.ofList path}: {document.countDocumentation} documentation, " ++
  s!"{document.countCode} code segment(s)" ++
  String.join (document.diagnostics.map fun diagnostic => s!"\n  warning {diagnostic.message}")

def rendering (arguments : ProcessArguments) (path : Text) (document : Document) : String :=
  match arguments.format with
  | .summary => summary path document
  | .json =>
    let layout : Json.Layout := if arguments.outputDirectory.isSome then .indented else .compact
    String.ofList (document.writeJson layout path)
  | .markdown => String.ofList (Markdown.ofDocument document)

def emit (arguments : ProcessArguments) (path : Text) (document : Document) (session : Session) :
    Except String Session :=
  let rendered := rendering arguments path document
  match arguments.outputDirectory with
  | some directory =>
    let target := Path.output directory path arguments.format.extension
    (writeFile session.fs target rendered.toUTF8 "Failed to write").map fun written =>
      { session with fs := written }.inform s!"Wrote {String.ofList target}"
  | none =>
    if arguments.format = .markdown then .ok (session.print rendered)
    else .ok (session.printLine rendered)

structure Tally where
  session : Session
  failures : Nat
  diagnostics : Nat

def Tally.add (arguments : ProcessArguments) (tally : Tally) (path : Text)
    (result : Except FileFailure Document) : Tally :=
  match result with
  | .error failure =>
    { tally with
      session := tally.session.complain
        s!"Error processing {String.ofList path}: {failure.message}"
      failures := tally.failures + 1 }
  | .ok document =>
    let diagnostics := tally.diagnostics + document.diagnostics.length
    match emit arguments path document tally.session with
    | .ok session => { tally with session, diagnostics }
    | .error message =>
      { session := tally.session.complain
          s!"Error writing output for {String.ofList path}: {message}"
        failures := tally.failures + 1
        diagnostics }

def supported (registry : Registry) (arguments : ProcessArguments) (path : Text) : Bool :=
  arguments.language.isSome || (registry.detect? path).isSome

def runFiles (registry : Registry) (arguments : ProcessArguments) (threads : Nat)
    (session : Session) : Outcome :=
  let ⟨paths, log⟩ := Expansion.expand session.fs (!arguments.noGitignore) arguments.paths
  let skipped := paths.filter (!supported registry arguments ·)
  let files := paths.filter (supported registry arguments)
  let session := (session.report log).report (skipped.map fun path =>
    ⟨.info, s!"Skipping unsupported file type: {String.ofList path}"⟩)
  if files.isEmpty then
    ⟨0, session.complain "No supported files found matching the provided patterns."⟩
  else
    let session := session.inform s!"Segmenting {files.length} file(s) on {threads} thread(s)"
    let results := files.map fun path =>
      (path, registry.segmentFile session.fs arguments.language path)
    let session := session.report (results.flatMap (·.2.log))
    let tally := results.foldl (fun (tally : Tally) (path, result) =>
      tally.add arguments path result.value) ⟨session, 0, 0⟩
    let session :=
      if arguments.format = .summary || arguments.outputDirectory.isSome then
        tally.session.printLine (s!"{files.length} files processed, {tally.failures} failed, " ++
          s!"{tally.diagnostics} diagnostics")
      else tally.session
    ⟨if tally.failures = 0 then 0 else 1, session⟩

/-- Segments the files that arguments name. `processors` is the number of threads unless another
one is given. -/
def runProcess (fs : FileSystem) (processors : Nat) (arguments : ProcessArguments) : Outcome :=
  let session := Session.start fs (if arguments.verbose then .info else .warn)
  if arguments.paths.isEmpty then
    fail "No input paths given. Run with --help for usage." session
  else
    let ⟨loaded, log⟩ := loadRegistry fs arguments.configuration
    let session := session.report log
    match loaded with
    | .error message => fail message session
    | .ok registry =>
      match arguments.language.map registry.grammar with
      | some (.error error) => fail error.messageWithCause session
      | _ => runFiles registry arguments (max (arguments.threads.getD processors) 1) session

def Invocation.run (fs : FileSystem) (processors : Nat) : Invocation → Outcome
  | .process arguments => runProcess fs processors arguments
  | .init output force => runInit fs output force
  | .languages file => runLanguages fs file

def version : String := "literate 0.1.0"

def usage : String := "Split source files into documentation and code segments.

Usage: literate [OPTIONS] [PATHS]...
       literate <COMMAND>

Commands:
  init       Write a configuration file with the default grammar tables
  languages  List the configured languages
  help       Print this message or the help of the given subcommand(s)

Arguments:
  [PATHS]...  Files, directories or glob patterns to segment

Options:
  -l, --language <LANGUAGE>      Force a language id instead of detecting it from the extension
  -c, --config <CONFIG>          Configuration file to use instead of discovery
  -f, --format <FORMAT>          Output format [default: summary] [possible values: summary, json, markdown]
  -o, --output-dir <OUTPUT_DIR>  Write one output file per source into this directory
      --no-gitignore             Disable .gitignore file processing
  -j, --threads <THREADS>        Number of worker threads (defaults to the number of CPUs)
  -v, --verbose                  Log progress information
  -h, --help                     Print help
  -V, --version                  Print version
"

def run? (fs : FileSystem) (processors : Nat) (arguments : List Text) : Option Outcome :=
  match Invocation.ofArguments arguments with
  | .ok invocation => some (invocation.run fs processors)
  | .error .displayVersion => some ⟨0, (Session.start fs .warn).printLine version⟩
  | .error .displayHelp => some ⟨0, (Session.start fs .warn).print usage⟩
  | .error _ => none

end SourceDocs.CommandLine
