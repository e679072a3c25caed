import Datatypes.Command.Generate
import Datatypes.Definition.Json

namespace Datatypes

structure Outcome where
  exit : Nat
  stdout : String := ""
  stderr : String := ""
  tree : FileTree

namespace Command

def line (s : String) : String := s ++ "\n"

def prettyLine (j : Json) : String := line (j.pretty 0)

def errorText (s : Settings) (message : String) : String :=
  if s.quiet then ""
  else match s.format with
    | .text => line message
    | .json => line (Json.compact (.object [("error", .string message)]))

/-- A rejected source is reported in JSON also in a quiet run. -/
def parseErrorText (s : Settings) (e : ParseError) : String :=
  match s.format with
  | .text => if s.quiet then "" else line ("parse error: " ++ e.display)
  | .json =>
    prettyLine (.object [("file", .string e.file), ("line", .ofNat e.line),
      ("message", .string e.message)])

def commandErrorText (s : Settings) : CommandError → String
  | .noInput cause => errorText s ("error: " ++ cause.message)
  | .badSource cause => parseErrorText s cause
  | .failed cause => errorText s ("error: " ++ cause.message)
  | .notGenerated cause => errorText s ("generation error: " ++ cause.message)

def generatedText (s : Settings) (dryRun : Bool) (classes : List (String × String)) : String :=
  match s.format with
  | .text =>
    if s.quiet then ""
    else String.join (classes.map fun (name, path) => line (name ++ " -> " ++ path)) ++
      line (if dryRun
        then "Dry run: " ++ toString classes.length ++ " class(es), nothing written"
        else "Successfully generated and written to disk")
  | .json =>
    prettyLine (.object [("dry_run", .bool dryRun),
      ("generated", .array (classes.map fun (name, path) =>
        .object [("class", .string name), ("path", .string path)]))])

def catalogText (s : Settings) (c : Catalog) : String :=
  match s.format with
  | .text =>
    String.join (c.registries.map fun r =>
      line r.ns ++ String.join (r.derivings.map fun d => line ("  " ++ d)))
  | .json =>
    prettyLine (.object [("namespaces", .array (c.registries.map fun r =>
      .object [("derivings", .strings r.derivings), ("namespace", .string r.ns)]))])

def run (s : Settings) (c : Command) (t : FileTree) : Outcome :=
  match c with
  | .generate o =>
    match Generation.run o t with
    | (t, .error e) => { exit := 1, stderr := commandErrorText s e, tree := t }
    | (t, .ok classes) => { exit := 0, stdout := generatedText s o.dryRun classes, tree := t }
  | .parse file =>
    match Input.parseFile t.readText file with
    | .error e => { exit := 1, stderr := parseErrorText s e, tree := t }
    | .ok c => { exit := 0, stdout := prettyLine c.toJson, tree := t }
  | .conventions file =>
    match Catalog.load t file with
    | .error e => { exit := 1, stderr := errorText s ("error: " ++ e.message), tree := t }
    | .ok c => { exit := 0, stdout := catalogText s c, tree := t }

def versionText : String := "dtgen 0.1.0"

def usageText : String :=
  "usage: dtgen [--output text|json] [--quiet] [--verbose] COMMAND\n" ++
  "  generate INPUT NAMESPACE [--conventions FILE] [--composer FILE | --out-dir DIR]" ++
  " [--dry-run]\n" ++
  "  parse FILE\n" ++
  "  conventions [--conventions FILE]\n"

def runArguments (args : List String) (t : FileTree) : Outcome :=
  match readArguments args with
  | none => { exit := 2, stderr := usageText, tree := t }
  | some .version => { exit := 0, stdout := line versionText, tree := t }
  | some (.run settings command) => run settings command t

end Command

end Datatypes
