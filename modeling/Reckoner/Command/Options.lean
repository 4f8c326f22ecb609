import Reckoner.Journal
import Reckoner.Number.Reading
import Reckoner.Table

/-!
# Options of the eval command

The options are flags and settings `--set NAME=VALUE`. What follows `--set` is its setting
even if it looks like an option. The first item that fits nothing is reported. The order of
the items does not matter, save that of two settings of one name the later counts.
-/

namespace Reckoner.Command

/-- One option with what belongs to it. -/
inductive Item where
  | set (name : String) (value : Value)
  | collect
  | clearOnGroup
  | verbose
  deriving DecidableEq

/-- Why a list of options is refused. -/
inductive Misuse where
  | notASetting (text : String)
  | unknownOption (text : String)
  deriving DecidableEq, Repr

/-- What is said about it. -/
def Misuse.message : Misuse → String
  | notASetting text => "--set expects NAME=VALUE, got '" ++ text ++ "'"
  | unknownOption text => "unknown option '" ++ text ++ "'"

/-- A number if the text writes one, else the text. -/
def valueOfText (text : String) : Value :=
  match Number.read? text with
  | some x => .number x
  | none => .text text

/-- Splits at the first equals sign; the name before it must not be empty. -/
def setting? (text : String) : Option (String × Value) :=
  let cs := text.toList
  let name := cs.takeWhile (· != '=')
  match cs.dropWhile (· != '=') with
  | [] => none
  | _ :: value =>
    if name = [] then none
    else some (String.ofList name, valueOfText (String.ofList value))

/-- The flag written so. -/
def flag? : String → Option Item
  | "--collect" => some .collect
  | "--clear-on-group" => some .clearOnGroup
  | "--verbose" => some .verbose
  | _ => none

/-- Reads a list of options. -/
def items : List String → Except Misuse (List Item)
  | [] => .ok []
  | "--set" :: text :: rest =>
    match setting? text with
    | none => .error (.notASetting text)
    | some (name, value) => (items rest).map (.set name value :: ·)
  | text :: rest =>
    match flag? text with
    | none => .error (.unknownOption text)
    | some item => (items rest).map (item :: ·)

/-- What a list of items amounts to. -/
structure Options where
  policy : Policy
  clearOnGroup : Bool
  verbose : Bool
  bindings : Table Value
  deriving DecidableEq

namespace Options

/-- Without any option. -/
def standard : Options := ⟨.raise, false, false, []⟩

/-- Adds an item. -/
def add (o : Options) : Item → Options
  | .set name value => { o with bindings := o.bindings.bind name value }
  | .collect => { o with policy := .collect }
  | .clearOnGroup => { o with clearOnGroup := true }
  | .verbose => { o with verbose := true }

/-- All items taken together. -/
def ofItems (items : List Item) : Options :=
  items.foldl add standard

end Options

end Reckoner.Command
