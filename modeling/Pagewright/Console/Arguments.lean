import Pagewright.Text.Basic

/-! # Command lines

A command line consists of options, their values and other words.  A long option starts with two
hyphens and may have its value behind an equals sign; short options start with one hyphen and may be
written together.  Two hyphens alone end the options.

Main definitions: `OptionForm`, `Line`, `readLine?`. -/

namespace Pagewright.Console

open Text

/-- An option: the spellings that stand for it, its name, and whether it takes a value. -/
structure OptionForm where
  spellings : List Text
  name : Text
  takesValue : Bool
  deriving DecidableEq, Repr

/-- What a command line says: the options with their values in order, and the other words. -/
structure Line where
  options : List (Text × Text) := []
  words : List Text := []
  deriving DecidableEq, Repr

/-- The option with a spelling. -/
def formOf? (forms : List OptionForm) (spelling : Text) : Option OptionForm :=
  forms.find? fun f => f.spellings.contains spelling

/-- Options together in one word: what they say, and whether the next word is the value of the last
one. -/
def shortOptions? (forms : List OptionForm) (next : Option Text) :
    Text → Option (List (Text × Text) × Bool)
  | [] => some ([], false)
  | c :: r => do
    let f ← formOf? forms ['-', c]
    if f.takesValue then
      if r.isEmpty then return ([(f.name, ← next)], true) else return ([(f.name, r)], false)
    else
      let (more, used) ← shortOptions? forms next r
      return ((f.name, []) :: more, used)

/-- The options in a word: what they say, and whether the next word is the value of the last one.
There is nothing if the word is not understood. -/
def wordOptions? (forms : List OptionForm) (next : Option Text) (word : Text) :
    Option (List (Text × Text) × Bool) :=
  let (spelling, value) := match cutAt? "=" word with
    | some (before, after) => (before, some after)
    | none => (word, none)
  match formOf? (forms.map fun f => { f with spellings := f.spellings.filter (2 < ·.length) })
      spelling with
  | some f =>
    match f.takesValue, value with
    | false, none => some ([(f.name, [])], false)
    | false, some _ => none
    | true, some v => some ([(f.name, v)], false)
    | true, none => next.map fun v => ([(f.name, v)], true)
  | none => if (dropLead? "--" word).isSome then none else shortOptions? forms next (word.drop 1)

/-- Whether a word is meant as an option. -/
def isOptionWord (word : Text) : Bool := word.head? == some '-' && decide (1 < word.length)

/-- What a command line says, or nothing if it is not understood.  Unless options may be mixed with
other words, the first other word ends them. -/
def readLine? (forms : List OptionForm) (mixed : Bool) : List Text → Option Line
  | [] => some {}
  | w :: ws =>
    if w = "--" then some { words := ws }
    else if isOptionWord w then do
      match ← wordOptions? forms ws.head? w, ws with
      | (found, true), _ :: rest =>
        let l ← readLine? forms mixed rest
        return { l with options := found ++ l.options }
      | (found, _), rest =>
        let l ← readLine? forms mixed rest
        return { l with options := found ++ l.options }
    else if mixed then do
      let l ← readLine? forms mixed ws
      return { l with words := w :: l.words }
    else some { words := w :: ws }

namespace Line

/-- Whether an option is given. -/
def has (l : Line) (name : Text) : Bool := l.options.any fun (k, _) => k == name

/-- The values of an option, in order. -/
def values (l : Line) (name : Text) : List Text :=
  l.options.filterMap fun (k, v) => if k = name then some v else none

/-- The value of an option; the last one counts. -/
def value? (l : Line) (name : Text) : Option Text := (l.values name).getLast?

end Line

end Pagewright.Console
