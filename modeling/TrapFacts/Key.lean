import TrapFacts.Handle

/-!
Identity keys. Two keys name the same entity exactly when they render to the same text.
-/

namespace TrapFacts

namespace Quoted

def double : List Char → List Char
  | [] => []
  | c :: r => if c = '"' then '"' :: '"' :: double r else c :: double r

/-- The text between two quotes, its own quotes doubled. -/
def quote (s : String) : String :=
  "\"" ++ String.ofList (double s.toList) ++ "\""

end Quoted

/-- A sequence of literal texts, integers, labels of other entities and nested keys. -/
inductive Key where
  | nil
  | text (value : String) (rest : Key)
  | int (value : Int) (rest : Key)
  | label (value : Label) (rest : Key)
  | nest (value : Key) (rest : Key)
  deriving DecidableEq

namespace Key

instance : Inhabited Key := ⟨.nil⟩

def append : Key → Key → Key
  | nil, k => k
  | text s r, k => text s (r.append k)
  | int n r, k => int n (r.append k)
  | label l r, k => label l (r.append k)
  | nest i r, k => nest i (r.append k)

instance : Append Key := ⟨append⟩

def literal (s : String) : Key :=
  text s nil

def ofLabel (l : Label) : Key :=
  label l nil

def isEmpty : Key → Bool
  | nil => true
  | _ => false

/-- The keys one after the other, a separating text between neighbours. -/
def join (sep : String) : List Key → Key
  | [] => nil
  | [k] => k
  | k :: ks => k ++ text sep (join sep ks)

/-- The content of a key: a label is set in braces, nesting leaves no trace. -/
def render : Key → String
  | nil => ""
  | text s r => s ++ r.render
  | int n r => toString n ++ r.render
  | label l r => "\x7b" ++ l.text ++ "\x7d" ++ r.render
  | nest k r => k.render ++ r.render

/-- The spelling of a key in a trap. -/
def spelling (k : Key) : String :=
  "@" ++ Quoted.quote k.render

end Key

end TrapFacts
