import RankRunner.Raised.Basic

/-! System errors: the names they have by their numbers, and what they say. -/

namespace RankRunner.Raised

/-- The condition that a system error number stands for. -/
def nameOfNumber (n : Int) : String :=
  if n = 1 || n = 13 then "PermissionError"
  else if n = 2 then "FileNotFoundError"
  else if n = 3 then "ProcessLookupError"
  else if n = 4 then "InterruptedError"
  else if n = 10 then "ChildProcessError"
  else if n = 11 || n = 114 || n = 115 then "BlockingIOError"
  else if n = 17 then "FileExistsError"
  else if n = 20 then "NotADirectoryError"
  else if n = 21 then "IsADirectoryError"
  else if n = 32 || n = 108 then "BrokenPipeError"
  else if n = 103 then "ConnectionAbortedError"
  else if n = 104 then "ConnectionResetError"
  else if n = 110 then "TimeoutError"
  else if n = 111 then "ConnectionRefusedError"
  else "OSError"

def system (number : Int) (message : String) : Raised :=
  ⟨nameOfNumber number, [.int number, .text message]⟩

def systemAt (number : Int) (message path : String) : Raised :=
  ⟨nameOfNumber number, [.int number, .text message, .text path]⟩

/-- The proper name of a condition: a general system error that has a number is named after it. -/
def properName (name : String) (args : List Value) : String :=
  let name := if name == "IOError" || name == "EnvironmentError" then "OSError" else name
  if name == "OSError" && 2 ≤ args.length && args.length ≤ 5 then
    match args.head? with
    | some (.int n) => nameOfNumber n
    | some (.bool true) => nameOfNumber 1
    | _ => name
  else name

/-- What a system error says: its number and message, and the files it is about. -/
structure SystemError where
  number : Value
  message : Value
  file : Option Value := none
  target : Option Value := none
  deriving Repr, Inhabited

def SystemError.text (e : SystemError) : String :=
  "[Errno " ++ e.number.display ++ "] " ++ e.message.display ++
    (e.file.map (": " ++ ·.literal)).getD "" ++ (e.target.map (" -> " ++ ·.literal)).getD ""

/-- Whether the third argument counts what was written before an operation would have blocked. -/
def countsWritten (r : Raised) : Bool :=
  r.name == "BlockingIOError" && ((r.args[2]?).any Value.isNumber)

/-- A system error has something to say if it has two to five arguments. The third names a file,
unless it is a count, and then the fifth names another one; the fourth has no meaning. -/
def systemError? (r : Raised) : Option SystemError :=
  match r.args with
  | number :: message :: rest =>
    if !r.isSystem || 3 < rest.length then none
    else
      match rest with
      | [] | .null :: _ => some { number, message }
      | file :: rest =>
        if r.countsWritten then some { number, message }
        else some { number, message, file, target := (rest[1]?).filter (!·.isNull) }
  | _ => none

def number (r : Raised) : Value := (r.systemError?.map (·.number)).getD .null

/-- The least number that is too large for a count of what was written. -/
def countLimit : Int := 9223372036854775808

/-- What is wrong with a count of what was written: a fraction, or a number out of range. -/
def countComplaint? (r : Raised) : Option Raised :=
  if !r.countsWritten || 5 < r.args.length then none
  else
    match r.args.drop 2 with
    | .float _ :: _ =>
      some (.badType "'float' object cannot be interpreted as an integer")
    | .int n :: _ =>
      if -countLimit ≤ n && n < countLimit then none
      else some (.badValue "cannot fit 'int' into an index-sized integer")
    | _ => none

example : (system 10 "No child processes").isNoChild = true := by decide +kernel

end RankRunner.Raised
