/-
The grammar of a command line: a command has options, some of which take a value, and may take
texts. Words are looked at from left to right. An option that takes a value takes the next word
unless that looks like an option; a value is checked when the next option or text begins, or at the
end. After two dashes alone all words are texts.
-/
import Triage.Decimal.Literal

namespace Triage.CommandLine

/-! ## Refusals -/

/-- Why a command line is not carried out. -/
inductive Refusal where
  | help
  | version
  /-- There was nothing at all, which is answered with help. -/
  | nothing
  | missingCommand
  | unknownCommand
  | unknownArgument
  | missingArgument
  /-- A value that is missing or is none of those there are. -/
  | value
  /-- A value that is not of the right form. -/
  | malformedValue
  /-- A value for an option that takes none. -/
  | needlessValue
  /-- An option given twice. -/
  | repeated
  deriving DecidableEq, Repr

/-- The exit status: asking for help or for the version is no mistake. -/
def Refusal.exit : Refusal → UInt32
  | .help | .version => 0
  | _ => 2

/-! ## Commands -/

/-- What the value of an option has to be. -/
inductive Form where
  /-- The path of a file: any text but the empty one. -/
  | path
  | oneOf (names : List String)
  /-- A whole number of 64 bits. -/
  | word
  | single
  deriving DecidableEq, Repr

/-- What an option does. -/
inductive Effect where
  | help
  | version
  /-- It may be given once. -/
  | switch
  /-- It may be given any number of times. -/
  | count
  | takes (f : Form)
  deriving DecidableEq, Repr

/-- An option, with its name of one letter if it has one. -/
structure Opt where
  name : String
  letter : Option Char
  effect : Effect
  deriving DecidableEq, Repr

/-- What a command takes: options, and texts or not. -/
structure Usage where
  options : List Opt
  texts : Bool
  deriving DecidableEq, Repr

/-! ## Values -/

/-- A whole number of 64 bits; a plus sign may stand in front. -/
def readWord? (s : String) : Option Nat :=
  let digits := match s.toList with
    | '+' :: rest => rest
    | cs => cs
  if digits.isEmpty || !digits.all Char.isDigit then none
  else
    let n := Decimal.naturalOf digits
    if n < UInt64.size then some n else none

/-- What is wrong with a value. -/
def Form.refusal? : Form → String → Option Refusal
  | .path, s => if s = "" then some .value else none
  | .oneOf names, s => if names.contains s then none else some .value
  | .word, s => if (readWord? s).isSome then none else some .malformedValue
  | .single, s =>
    match Decimal.readSingle s with
    | .ok _ => none
    | .error _ => some .malformedValue

/-! ## What was given -/

/-- What was given so far: options with their values, the last first, and texts, the last first. The
option that was met last may still await its value, or the check of it. -/
structure Given where
  options : List (String × String)
  texts : List String
  pending : Option (Opt × Option String)
  deriving DecidableEq, Repr

namespace Given

/-- Nothing. -/
def nothing : Given :=
  ⟨[], [], none⟩

/-- Whether an option was given. -/
def has (g : Given) (name : String) : Bool :=
  g.options.any (·.1 == name)

/-- The value of an option. -/
def value? (g : Given) (name : String) : Option String :=
  g.options.lookup name

/-- Whether the next word is the value of an option. -/
def awaitsValue (g : Given) : Bool :=
  match g.pending with
  | some (_, none) => true
  | _ => false

/-- Takes a word as the value that is awaited. -/
def takeValue? (g : Given) (word : String) : Option Given :=
  match g.pending with
  | some (o, none) => some { g with pending := some (o, some word) }
  | _ => none

/-- Records an option with a value, which it may have once. -/
def record (g : Given) (o : Opt) (value : String) : Except Refusal Given :=
  if g.has o.name then .error .repeated
  else
    match o.effect with
    | .takes f =>
      match f.refusal? value with
      | some r => .error r
      | none => .ok { g with options := (o.name, value) :: g.options }
    | _ => .ok { g with options := (o.name, value) :: g.options }

/-- Checks the value that is still to be checked. -/
def settle (g : Given) : Except Refusal Given :=
  match g.pending with
  | none => .ok g
  | some (_, none) => .error .value
  | some (o, some value) => { g with pending := none }.record o value

/-- Meets an option with the value written together with it, if there is one. -/
def meet (g : Given) (o : Opt) (attached : Option String) : Except Refusal Given := do
  match o.effect, attached with
  | .takes _, some value => (← g.settle).record o value
  | .takes _, none => pure { ← g.settle with pending := some (o, none) }
  | _, some _ => .error .needlessValue
  | .help, none =>
    let _ ← g.settle
    .error .help
  | .version, none =>
    let _ ← g.settle
    .error .version
  | .switch, none => (← g.settle).record o ""
  | .count, none =>
    let g ← g.settle
    pure { g with options := (o.name, "") :: g.options }

/-- Meets a text. -/
def meetText (g : Given) (text : String) : Except Refusal Given := do
  let g ← g.settle
  pure { g with texts := text :: g.texts }

end Given

/-! ## Words -/

/-- A word that begins with two dashes: a name and what follows its first equals sign. -/
def splitAttached (cs : List Char) : String × Option String :=
  let name := cs.takeWhile (· != '=')
  (String.ofList name,
    match cs.drop name.length with
    | _ :: value => some (String.ofList value)
    | [] => none)

/-- Meets an option by its name. -/
def Usage.meetNamed (u : Usage) (g : Given) (cs : List Char) : Except Refusal Given :=
  let (name, attached) := splitAttached cs
  match u.options.find? (·.name == name) with
  | none => .error .unknownArgument
  | some o => g.meet o attached

/-- The value behind the letter of an option in the same word; an equals sign may stand between. -/
def attachedTo : List Char → Option String
  | [] => none
  | '=' :: value => some (String.ofList value)
  | value => some (String.ofList value)

/-- Meets options by their letters, which may stand together in a word. -/
def Usage.meetLetters (u : Usage) (g : Given) : List Char → Except Refusal Given
  | [] => .ok g
  | c :: rest =>
    match u.options.find? (·.letter == some c) with
    | none => .error .unknownArgument
    | some o =>
      match o.effect with
      | .takes _ => g.meet o (attachedTo rest)
      | _ =>
        match g.meet o none with
        | .error r => .error r
        | .ok g => meetLetters u g rest

/-- What a word is when it is not taken for a text at once. -/
inductive Word where
  | separator
  | named (cs : List Char)
  | letters (cs : List Char)
  | plain

/-- What a word looks like. A dash alone is a text. -/
def Word.of (word : String) : Word :=
  match word.toList with
  | ['-', '-'] => .separator
  | '-' :: '-' :: cs => .named cs
  | ['-'] => .plain
  | '-' :: cs => .letters cs
  | _ => .plain

/-! ## Commands with options and texts -/

/-- Meets words behind two dashes alone. -/
def Usage.meetTexts (u : Usage) (g : Given) : List String → Except Refusal Given
  | [] => .ok g
  | word :: rest =>
    if u.texts then
      match g.meetText word with
      | .error r => .error r
      | .ok g => meetTexts u g rest
    else .error .unknownArgument

/-- Meets words. -/
def Usage.meetWords (u : Usage) (g : Given) : List String → Except Refusal Given
  | [] => .ok g
  | word :: rest =>
    match Word.of word with
    | .separator => u.meetTexts g rest
    | .named cs =>
      match u.meetNamed g cs with
      | .error r => .error r
      | .ok g => meetWords u g rest
    | .letters cs =>
      match u.meetLetters g cs with
      | .error r => .error r
      | .ok g => meetWords u g rest
    | .plain =>
      match g.takeValue? word with
      | some g => meetWords u g rest
      | none =>
        if u.texts then
          match g.meetText word with
          | .error r => .error r
          | .ok g => meetWords u g rest
        else .error .unknownArgument

/-- What a command was given. -/
def Usage.read (u : Usage) (words : List String) : Except Refusal Given := do
  (← u.meetWords .nothing words).settle

end Triage.CommandLine
