/-
The commands of the program and what they are given. The options that are common to all commands may
stand before the command or behind it; one that stands behind it counts.
-/
import Triage.CommandLine.Grammar
import Triage.Storage.Path
import Triage.Task

namespace Triage.CommandLine

open Storage (Path)

/-! ## Commands -/

/-- What is to be done. -/
inductive Command where
  /-- Trains classifiers on the samples in a file and writes their bundles into a directory. -/
  | train (data output : Path) (tasks : List Task) (settings : Option Path) (seed : Option UInt64)
      (epochs : Option Nat)
  /-- Shows the normal form of texts. -/
  | normalize (texts : List String)
  /-- Classifies texts with the bundle in a directory. -/
  | predict (bundle : Path) (task : Task) (threshold : Option Float32) (texts : List String)
  /-- Shows what the bundle in a directory holds. -/
  | inspect (bundle : Path) (task : Task)
  deriving DecidableEq

/-- How results are shown. -/
structure Display where
  quiet : Bool
  json : Bool
  /-- Whether JSON is spread over lines. -/
  pretty : Bool
  deriving DecidableEq, Repr

/-- A command with how its results are shown. -/
structure Invocation where
  display : Display
  command : Command
  deriving DecidableEq

/-! ## Options -/

/-- The options all commands have. -/
def commonOptions : List Opt :=
  [⟨"verbose", some 'v', .count⟩, ⟨"quiet", some 'q', .switch⟩,
   ⟨"format", some 'f', .takes (.oneOf ["human", "json"])⟩, ⟨"pretty", none, .switch⟩,
   ⟨"help", some 'h', .help⟩]

/-- What may stand before a command. -/
def leading : Usage where
  options := ⟨"version", some 'V', .version⟩ :: commonOptions
  texts := false

/-- The option that names a bundle, and that which names its task. -/
def bundleOptions : List Opt :=
  [⟨"bundle", some 'b', .takes .path⟩, ⟨"task", some 't', .takes (.oneOf ["ad", "topic"])⟩]

def trainUsage : Usage where
  options :=
    [⟨"data", some 'd', .takes .path⟩, ⟨"output", some 'o', .takes .path⟩,
     ⟨"task", some 't', .takes (.oneOf ["ad", "topic", "all"])⟩,
     ⟨"config", some 'c', .takes .path⟩, ⟨"seed", none, .takes .word⟩,
     ⟨"epochs", none, .takes .word⟩] ++ commonOptions
  texts := false

def normalizeUsage : Usage :=
  ⟨commonOptions, true⟩

def predictUsage : Usage where
  options := bundleOptions ++ ⟨"threshold", none, .takes .single⟩ :: commonOptions
  texts := true

def inspectUsage : Usage :=
  ⟨bundleOptions ++ commonOptions, false⟩

/-! ## Reading -/

namespace Given

/-- The path an option names; it must be given. -/
def path (g : Given) (name : String) : Except Refusal Path :=
  match g.value? name with
  | some text => .ok (.ofText text)
  | none => .error .missingArgument

/-- The tasks an option names: one of them, or all. -/
def tasks (g : Given) : List Task :=
  match g.value? "task" with
  | some "ad" => [.ad]
  | some "topic" => [.topic]
  | _ => Task.all

/-- The task an option names; that of ads if there is none. -/
def task (g : Given) : Task :=
  if g.value? "task" = some "topic" then .topic else .ad

/-- The texts, in order; there must be one. -/
def allTexts (g : Given) : Except Refusal (List String) :=
  if g.texts.isEmpty then .error .missingArgument else .ok g.texts.reverse

/-- The number of 64 bits an option gives. -/
def word? (g : Given) (name : String) : Option Nat :=
  (g.value? name).bind readWord?

/-- The single an option gives. -/
def single? (g : Given) (name : String) : Option Float32 :=
  (g.value? name).bind fun s => (Decimal.readSingle s).toOption

end Given

/-- The command of a name, read from the words behind it, with what else it was given. -/
def readCommand? (name : String) (words : List String) :
    Option (Except Refusal (Command × Given)) :=
  match name with
  | "train" => some do
    let g ← trainUsage.read words
    let data ← g.path "data"
    let output ← g.path "output"
    pure (.train data output g.tasks ((g.value? "config").map .ofText)
      ((g.word? "seed").map UInt64.ofNat) (g.word? "epochs"), g)
  | "normalize" => some do
    let g ← normalizeUsage.read words
    pure (.normalize (← g.allTexts), g)
  | "predict" => some do
    let g ← predictUsage.read words
    let bundle ← g.path "bundle"
    pure (.predict bundle g.task (g.single? "threshold") (← g.allTexts), g)
  | "inspect" => some do
    let g ← inspectUsage.read words
    let bundle ← g.path "bundle"
    pure (.inspect bundle g.task, g)
  | _ => none

/-- The names of the commands. -/
def commandNames : List String :=
  ["train", "normalize", "predict", "inspect", "help"]

/-- The answer to a request for help, which may name a command. -/
def helpOn : List String → Refusal
  | [] => .help
  | [name] => if commandNames.contains name then .help else .unknownCommand
  | _ => .unknownCommand

/-- How results are shown, of what was given before a command and behind it. -/
def displayOf (before behind : Given) : Display where
  quiet := before.has "quiet" || behind.has "quiet"
  json := (behind.value? "format").or (before.value? "format") = some "json"
  pretty := before.has "pretty" || behind.has "pretty"

/-- What is left to say when there is no command. -/
def Given.withoutCommand (g : Given) : Refusal :=
  match g.settle with
  | .error r => r
  | .ok g => if g.options.isEmpty then .nothing else .missingCommand

/-- The answer to words behind two dashes alone, where no command can stand. -/
def Given.behindSeparator (g : Given) : List String → Refusal
  | [] => g.withoutCommand
  | word :: _ => if commandNames.contains word then .unknownArgument else .unknownCommand

/-- Meets a word that is no command. -/
def meetLeading (g : Given) (word : String) : Except Refusal Given :=
  match Word.of word with
  | .named cs => leading.meetNamed g cs
  | .letters cs => leading.meetLetters g cs
  | .separator | .plain =>
    match g.takeValue? word with
    | some g => .ok g
    | none => .error .unknownCommand

/-- Reads words up to a command and what is behind it. -/
def readFrom (g : Given) : List String → Except Refusal Invocation
  | [] => .error g.withoutCommand
  | word :: rest =>
    match if g.awaitsValue then none else readCommand? word rest with
    | some (.error r) => .error r
    | some (.ok (command, behind)) => do
      let before ← g.settle
      pure ⟨displayOf before behind, command⟩
    | none =>
      if word = "--" then .error (g.behindSeparator rest)
      else if word = "help" && !g.awaitsValue then .error (helpOn rest)
      else
        match meetLeading g word with
        | .error r => .error r
        | .ok g => readFrom g rest

/-- The invocation in the words of a command line. -/
def Invocation.read (words : List String) : Except Refusal Invocation :=
  readFrom .nothing words

end Triage.CommandLine
