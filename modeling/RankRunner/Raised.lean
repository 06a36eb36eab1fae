import RankRunner.Raised.Coding
import RankRunner.Raised.Located
import RankRunner.Raised.SystemError

/-! Conditions by name and arguments. Most accept any arguments and show them as they are; some
want certain arguments, and a complaint about those is raised in their place. -/

namespace RankRunner.Raised

def groupNames : List String := ["ExceptionGroup", "BaseExceptionGroup"]

/-- What is wrong with the arguments of a group of conditions: a message and a sequence of
conditions are wanted, but no value is a condition. -/
def groupComplaint (args : List Value) : Raised :=
  match args with
  | [message, members] =>
    match message, members with
    | .text _, .text "" | .text _, .list [] =>
      badValue "second argument (exceptions) must be a non-empty sequence"
    | .text _, .text _ | .text _, .list _ =>
      badValue "Item 0 of second argument (exceptions) is not an exception"
    | .text _, _ => badType "second argument (exceptions) must be a sequence"
    | message, _ =>
      badType s!"BaseExceptionGroup.__new__() argument 1 must be str, not {message.givenName}"
  | _ => badType s!"BaseExceptionGroup.__new__() takes exactly 2 arguments ({args.length} given)"

def complaint? (r : Raised) : Option Raised :=
  if groupNames.contains r.name then some (groupComplaint r.args)
  else if r.isLocated then r.placeComplaint?
  else r.codingComplaint?.or r.countComplaint?

/-- A condition under its proper name, or the complaint about its arguments. -/
def make (name : String) (args : List Value) : Except Raised Raised :=
  let r : Raised := ⟨properName name args, args⟩
  match r.complaint? with
  | some complaint => .error complaint
  | none => .ok r

def ofName (name : String) (args : List Value) : Raised :=
  match make name args with
  | .ok r | .error r => r

def tuple (args : List Value) : String := "(" ++ ", ".intercalate (Value.literals args) ++ ")"

/-- The text of a condition that says nothing of its own: its argument, or its arguments
together. -/
def plainText (r : Raised) : String :=
  match r.args with
  | [] => ""
  | [v] => if r.name == "KeyError" then v.literal else v.display
  | vs => tuple vs

def text (r : Raised) : String :=
  if r.isLocated then r.locatedText
  else ((r.systemError?.map (·.text)).or r.codingText?).getD r.plainText

end RankRunner.Raised
