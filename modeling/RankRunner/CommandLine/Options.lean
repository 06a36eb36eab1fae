import RankRunner.Config

/-! The options of the command line, and their help. -/

namespace RankRunner.CommandLine

inductive Setting where
  | output
  | format
  | parallel
  | simple
  | verbose
  | debug
  | group
  | list
  | help
  deriving DecidableEq, Repr, Inhabited

structure Opt where
  setting : Setting
  short : Option Char
  long : String
  /-- The name that unsets what the option sets. -/
  negation : Option String := none
  /-- What the value of the option is called, if it takes one. -/
  value : Option String := none
  help : String
  deriving Repr, Inhabited

def options : List Opt := [
  { setting := .output, short := some 'o', long := "--output", value := some "TEXT",
    help := "Report destination (\"-\" for standard output)" },
  { setting := .format, short := some 'f', long := "--format", value := some "[txt|xml]",
    help := "Report format" },
  { setting := .parallel, short := some 'p', long := "--parallel", value := some "INTEGER",
    help := "Max number of sandboxed cases running at once" },
  { setting := .simple, short := some 's', long := "--simple", negation := some "--sandboxed",
    help := "Run cases inside the runner (simple) or in forked children" },
  { setting := .verbose, short := some 'v', long := "--verbose", help := "Be verbose" },
  { setting := .debug, short := some 'd', long := "--debug",
    help := "Dump the sequenced graph and show stack traces" },
  { setting := .group, short := some 'g', long := "--group", value := some "TEXT",
    help := "Only run this group (and what it depends on); repeatable" },
  { setting := .list, short := none, long := "--list",
    help := "List groups and cases without running them" },
  { setting := .help, short := some 'h', long := "--help",
    help := "Show this message and exit." }]

namespace Opt

def takesValue (o : Opt) : Bool := o.value.isSome

def shortName (c : Char) : String := "-" ++ String.singleton c

def longNames (o : Opt) : List String := o.long :: o.negation.toList

/-- The names of an option with its value, as help shows them. -/
def usage (o : Opt) : String :=
  let short := (o.short.map fun c => shortName c ++ ", ").getD ""
  let negation := (o.negation.map (" / " ++ ·)).getD ""
  let value := (o.value.map (" " ++ ·)).getD ""
  short ++ o.long ++ negation ++ value

/-- The names of an option, as complaints about its value show them. -/
def hint (o : Opt) : String :=
  let short := (o.short.map fun c => "'" ++ shortName c ++ "' / ").getD ""
  short ++ "'" ++ o.long ++ "'"

end Opt

def allLongNames : List String := options.flatMap Opt.longNames

def byShort? (c : Char) : Option Opt := options.find? (·.short == some c)

/-- The option with a long name, and whether the name sets it. -/
def byLong? (name : String) : Option (Opt × Bool) :=
  match options.find? (·.long == name) with
  | some o => some (o, true)
  | none => (options.find? (·.negation == some name)).map (·, false)

end RankRunner.CommandLine
