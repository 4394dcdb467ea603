import TrapFacts.Key

/-!
Trap records: the lines of a trap file and their spelling.
-/

namespace TrapFacts

/-- An argument of a fact. -/
inductive Value where
  | label (value : Label)
  | int (value : Int)
  | text (value : String)
  deriving DecidableEq

def Value.spelling : Value → String
  | label l => l.text
  | int n => toString n
  | text s => Quoted.quote s

/-- A fact: a relation and its arguments. -/
structure Tuple where
  relation : String
  args : List Value
  deriving DecidableEq

def Tuple.spelling (t : Tuple) : String :=
  t.relation ++ "(" ++ ",".intercalate (t.args.map Value.spelling) ++ ")"

/-- One line of a trap. -/
inductive Record where
  | define (label : Label) (key : Key)
  | fresh (label : Label)
  | push (key : Key)
  | pop
  | tuple (fact : Tuple)
  | comment (text : String)
  deriving DecidableEq

namespace Record

def spelling : Record → String
  | define l k => l.text ++ "=" ++ k.spelling
  | fresh l => l.text ++ "=*"
  | push k => ".push " ++ k.spelling
  | pop => ".pop"
  | tuple t => t.spelling
  | comment s => "// " ++ s

/-- The label that a record introduces. -/
def introduced? : Record → Option Label
  | define l _ => some l
  | fresh l => some l
  | _ => none

end Record

/-- The text of a trap: every record on a line of its own. -/
def trapText (records : List Record) : String :=
  String.join (records.map (·.spelling ++ "\n"))

end TrapFacts
