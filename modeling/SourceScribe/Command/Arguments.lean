/-
  Arguments of a command: options, and at most one other argument.

  An option has a short and a long name.  A long name may be shortened as long as it is
  clear which one is meant, and may have its value after an equals sign.  Short options may
  stand together after one hyphen, the last one with its value.  After two hyphens no
  argument is an option; a negative number, a lone hyphen, or an unknown option with a blank
  in it is none either.

  `Usage.read` reads the arguments of a command.
-/
import SourceScribe.Text.Basic

namespace SourceScribe.Command

/-! ## Options -/

/-- What an option takes: nothing, or one of some values. -/
inductive Takes where
  | nothing
  | oneOf (values : List String)

/-- An option: its letter after one hyphen, its name after two, and what it takes. -/
structure Switch where
  letter : Char
  name : String
  takes : Takes

namespace Switch

/-- The short form of an option. -/
def short (s : Switch) : List Char := ['-', s.letter]

/-- The long form of an option. -/
def long (s : Switch) : List Char := '-' :: '-' :: s.name.toList

/-- Whether the option takes a value. -/
def takesValue (s : Switch) : Bool :=
  match s.takes with
  | .nothing => false
  | .oneOf _ => true

end Switch

/-- The option that asks for help. -/
def helpSwitch : Switch := ⟨'h', "help", .nothing⟩

/-- The options of a command. -/
structure Usage where
  switches : List Switch

/-- Why arguments are not read to the end. -/
inductive Refusal where
  /-- The arguments are wrong. -/
  | misuse
  /-- Help was asked for. -/
  | help
deriving DecidableEq

/-- What the arguments say: the options in order, with their values, and the argument that
    is none. -/
structure Given where
  switches : List (String × String)
  argument : Option String

namespace Given

/-- Whether an option was given. -/
def has (g : Given) (name : String) : Bool :=
  g.switches.any (·.1 = name)

/-- The value of an option; of several, the last one. -/
def value? (g : Given) (name : String) : Option String :=
  (g.switches.reverse.find? (·.1 = name)).map (·.2)

end Given

/-! ## Words -/

/-- What follows the name of an option in one word: nothing, a value, or a value after an
    equals sign. -/
inductive Tail where
  | none
  | joined (value : List Char)
  | equals (value : List Char)

/-- What a word is. -/
inductive Word where
  /-- No option. -/
  | plain (text : String)
  /-- The two hyphens. -/
  | hyphens
  /-- An option. -/
  | switch (s : Switch) (tail : Tail)
  /-- An option that there is not. -/
  | unknown

/-- Takes a line feed off the end of a word. -/
def withoutLineFeed (cs : List Char) : List Char :=
  if cs.getLast? = some '\n' then cs.dropLast else cs

/-- Whether a word is a negative number; a line feed after it does not matter. -/
def isNegativeNumber : List Char → Bool
  | '-' :: cs =>
    let (whole, rest) := (withoutLineFeed cs).span Text.isDigit
    match rest with
    | [] => !whole.isEmpty
    | '.' :: part => !part.isEmpty && part.all Text.isDigit
    | _ => false
  | _ => false

/-- Splits a word at its first equals sign. -/
def splitEquals (cs : List Char) : List Char × Tail :=
  match cs.span (· ≠ '=') with
  | (name, _ :: value) => (name, .equals value)
  | (name, []) => (name, .none)

/-- What a word is that is no full option: a negative number or a word with a blank is none,
    anything else is an unknown one. -/
def otherWord (cs : List Char) : Word :=
  if isNegativeNumber cs || cs.contains ' ' then .plain (String.ofList cs) else .unknown

/-- What a word that begins with two hyphens is, if it is no full option: the start of the
    name of just one. -/
def shortenedWord (switches : List Switch) (cs : List Char) : Except Refusal Word :=
  let (name, tail) := splitEquals cs
  match switches.filter fun s => name.isPrefixOf s.long with
  | [] => .ok (otherWord cs)
  | [s] => .ok (.switch s tail)
  | _ => .error .misuse

/-- What a word that begins with one hyphen is, if it is no full option: an option with its
    value, or with further options, after its letter. -/
def joinedWord (switches : List Switch) (cs : List Char) : Word :=
  match cs with
  | h :: c :: rest =>
    match switches.find? fun s => s.short = [h, c] with
    | some s => .switch s (.joined rest)
    | none => otherWord cs
  | _ => otherWord cs

/-- The option with this full form. -/
def fullForm? (switches : List Switch) (cs : List Char) : Option Switch :=
  switches.find? fun s => s.short = cs || s.long = cs

/-- What a word is. -/
def classify (switches : List Switch) (word : String) : Except Refusal Word :=
  let cs := word.toList
  match cs with
  | [] | ['-'] => .ok (.plain word)
  | '-' :: c :: _ =>
    match fullForm? switches cs, splitEquals cs with
    | some s, _ => .ok (.switch s .none)
    | none, (name, tail) =>
      match fullForm? switches name, tail with
      | some s, .equals value => .ok (.switch s (.equals value))
      | _, _ => if c = '-' then shortenedWord switches cs else .ok (joinedWord switches cs)
  | _ => .ok (.plain word)

/-- What the words are.  After two hyphens, none is an option. -/
def classifyAll (switches : List Switch) : List String → Except Refusal (List Word)
  | [] => .ok []
  | word :: words =>
    if word = "--" then .ok (.hyphens :: words.map .plain)
    else do
      let w ← classify switches word
      let ws ← classifyAll switches words
      return w :: ws

/-! ## Reading -/

/-- What comes last in a word with options, after those that take nothing. -/
inductive Last where
  /-- Nothing more. -/
  | nothing
  /-- An option with its value. -/
  | valued (s : Switch) (value : String)
  /-- An option whose value is the next word. -/
  | needsWord (s : Switch)
  /-- A letter that is no option. -/
  | unknown

/-- Reads the options in one word: option `s`, and further ones right after it. -/
def cluster (switches : List Switch) : Switch → List Char → Except Refusal (List Switch × Last)
  | s, [] => if s.takesValue then .ok ([], .needsWord s) else .ok ([s], .nothing)
  | s, c :: rest =>
    if s.takesValue then .ok ([], .valued s (String.ofList (c :: rest)))
    else if c = '-' then .error .misuse
    else
      match switches.find? fun t => t.letter = c, rest with
      | none, _ => .ok ([s], .unknown)
      | some t, '=' :: value =>
        if t.takesValue then .ok ([s], .valued t (String.ofList value)) else .error .misuse
      | some t, rest => do
        let (more, last) ← cluster switches t rest
        return (s :: more, last)

/-- Reads the options in one word. -/
def wordOptions (switches : List Switch) (s : Switch) :
    Tail → Except Refusal (List Switch × Last)
  | .none => cluster switches s []
  | .joined value => cluster switches s value
  | .equals value =>
    if s.takesValue then .ok ([], .valued s (String.ofList value)) else .error .misuse

/-- The reading of arguments so far. -/
structure Progress where
  given : Given
  /-- Whether the word before was taken as the argument. -/
  fresh : Bool
  /-- Whether there was a word with no place. -/
  extra : Bool

namespace Progress

/-- The reading before the first word. -/
def start : Progress := ⟨⟨[], none⟩, false, false⟩

/-- Takes a word that is no option. -/
def addPlain (p : Progress) (word : String) : Progress :=
  match p.given.argument with
  | none => { p with given := { p.given with argument := some word }, fresh := true }
  | some _ => { p with fresh := false, extra := true }

/-- Takes the two hyphens.  They have no place if the argument was taken before some
    option. -/
def addHyphens (p : Progress) : Progress :=
  { p with fresh := false, extra := p.extra || (p.given.argument.isSome && !p.fresh) }

/-- Takes a word that has no place. -/
def addUnknown (p : Progress) : Progress :=
  { p with fresh := false, extra := true }

/-- Takes an option with its value. -/
def addSwitch (p : Progress) (name value : String) : Progress :=
  { p with given := { p.given with switches := p.given.switches ++ [(name, value)] },
           fresh := false }

/-- Takes options that take nothing, up to one that asks for help. -/
def addFlags (p : Progress) : List Switch → Except Refusal Progress
  | [] => .ok p
  | s :: ss => if s.name = helpSwitch.name then .error .help else (p.addSwitch s.name "").addFlags ss

/-- Takes an option with its value, if it is one of those that the option takes. -/
def addValue (p : Progress) (s : Switch) (value : String) : Except Refusal Progress :=
  match s.takes with
  | .nothing => .error .misuse
  | .oneOf values => if value ∈ values then .ok (p.addSwitch s.name value) else .error .misuse

end Progress

/-- Reads words one after the other. -/
def readWords (switches : List Switch) (p : Progress) : List Word → Except Refusal Progress
  | [] => .ok p
  | .plain word :: words => readWords switches (p.addPlain word) words
  | .hyphens :: words => readWords switches p.addHyphens words
  | .unknown :: words => readWords switches p.addUnknown words
  | .switch s tail :: words => do
    let (flags, last) ← wordOptions switches s tail
    match last, words with
    | .nothing, words => readWords switches (← p.addFlags flags) words
    | .unknown, words => readWords switches (← p.addFlags flags).addUnknown words
    | .valued t value, words => readWords switches (← (← p.addFlags flags).addValue t value) words
    | .needsWord t, .plain value :: words =>
      readWords switches (← (← p.addFlags flags).addValue t value) words
    | .needsWord _, _ => .error .misuse

/-- Reads the arguments of a command. -/
def Usage.read (u : Usage) (words : List String) : Except Refusal Given := do
  let switches := helpSwitch :: u.switches
  let p ← readWords switches .start (← classifyAll switches words)
  if p.extra then .error .misuse else return p.given

end SourceScribe.Command
