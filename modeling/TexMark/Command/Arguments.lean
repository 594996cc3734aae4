/-
  TexMark/Command/Arguments.lean
  ==============================
  **Arguments of the command line.** The first argument names a subcommand; the others are
  options and operands, in any order.

  `Arguments.read` is `_parse`.
-/
import TexMark.Config

namespace TexMark.Command

/-- The subcommands (`SUBCOMMANDS`). -/
inductive Subcommand where
  | convert
  | check
  | config
deriving DecidableEq, Repr

namespace Subcommand

def all : List Subcommand := [convert, check, config]

def name : Subcommand → Text
  | convert => "convert"
  | check => "check"
  | config => "config"

def summary : Subcommand → Text
  | convert => "Convert IN and write the result (-o OUT, --reverse, --yes)"
  | check => "Convert IN in memory and list diagnostics (--reverse)"
  | config => "Show the configuration, or change it (set KEY VALUE, get KEY)"

def ofName? (t : Text) : Option Subcommand := all.find? fun s => s.name == t

end Subcommand

/-- Options and operands. -/
structure Arguments where
  operands : List Text
  reverse : Bool
  yes : Bool
  output? : Option Text
deriving DecidableEq, Repr

/-- Why arguments cannot be used. -/
inductive ArgumentError where
  | missingPath (option : Text)
  | unknownOption (option : Text)
deriving DecidableEq, Repr

def ArgumentError.message : ArgumentError → Text
  | missingPath option => option ++ " needs a path"
  | unknownOption option => "Unknown option: " ++ option

namespace Arguments

/-- The arguments given so far, and those to come. What follows `-o` is a path, whatever it
    looks like. -/
def readFrom (a : Arguments) : List Text → Except ArgumentError Arguments
  | [] => .ok a
  | arg :: rest =>
    if arg = "--reverse".toList then readFrom { a with reverse := true } rest
    else if arg = "-y".toList ∨ arg = "--yes".toList then readFrom { a with yes := true } rest
    else if arg = "-o".toList ∨ arg = "--output".toList then
      match rest with
      | [] => .error (.missingPath arg)
      | path :: more => readFrom { a with output? := some path } more
    else if arg.head? = some '-' then .error (.unknownOption arg)
    else readFrom { a with operands := a.operands ++ [arg] } rest

/-- The options and operands of a command (`_parse`). -/
def read (args : List Text) : Except ArgumentError Arguments := readFrom ⟨[], false, false, none⟩ args

def direction (a : Arguments) : Direction := if a.reverse then .reverse else .forward

end Arguments

end TexMark.Command
