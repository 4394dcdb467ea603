import TrapFacts.Config.Basic
import TrapFacts.Failure
import TrapFacts.Toml.Parser

/-!
The TOML form of a config. What a document does not say keeps its default, and what is unknown is
ignored.
-/

namespace TrapFacts

namespace Toml

/-- The values of a record's fields: by their names out of a table, by their order out of an array.
A date has none of the names. -/
def record? (names : List String) : Toml → Option (List (Option Toml))
  | table _ entries => some (names.map fun name => entries.lookup name)
  | array items => some ((List.range names.length).map fun i => items[i]?)
  | tables items => some ((List.range names.length).map fun i => items[i]?)
  | dateTime => some (names.map fun _ => none)
  | _ => none

def nat? : Toml → Option Nat
  | integer n => if 0 ≤ n then some n.toNat else none
  | _ => none

def bool? : Toml → Option Bool
  | boolean b => some b
  | _ => none

/-- A value that holds nothing. -/
def isVoid : Toml → Bool
  | array items => items.isEmpty
  | table _ entries => entries.isEmpty
  | _ => false

/-- One word of a vocabulary: the word, or a table with that word as its only key, empty. -/
def word? : Toml → Option String
  | string s => some s
  | table _ [(s, v)] => if v.isVoid then some s else none
  | _ => none

/-- The value of a field that may be missing. -/
def defaulted {α : Type} (fallback : α) (decode : Toml → Option α) : Option Toml → Option α
  | none => some fallback
  | some v => decode v

end Toml

open Toml (defaulted)

def Compression.ofToml? (v : Toml) : Option Compression :=
  v.word?.bind ofName?

def ExtractionConfig.ofToml? (v : Toml) : Option ExtractionConfig := do
  let fields := ["max_recursion_depth", "max_errors", "standalone", "check_label_collisions"]
  match ← v.record? fields with
  | [maxRecursionDepth, maxErrors, standalone, checkLabelCollisions] =>
    let fallback : ExtractionConfig := {}
    some {
      maxRecursionDepth := ← defaulted fallback.maxRecursionDepth Toml.nat? maxRecursionDepth
      maxErrors := ← defaulted fallback.maxErrors Toml.nat? maxErrors
      standalone := ← defaulted fallback.standalone Toml.bool? standalone
      checkLabelCollisions :=
        ← defaulted fallback.checkLabelCollisions Toml.bool? checkLabelCollisions }
  | _ => none

def OutputConfig.ofToml? (v : Toml) : Option OutputConfig := do
  match ← v.record? ["compression", "overwrite", "threads"] with
  | [compression, overwrite, threads] =>
    let fallback : OutputConfig := {}
    some {
      compression := ← defaulted fallback.compression Compression.ofToml? compression
      overwrite := ← defaulted fallback.overwrite Toml.bool? overwrite
      threads := ← defaulted fallback.threads Toml.nat? threads }
  | _ => none

namespace Config

def ofToml? (v : Toml) : Option Config := do
  match ← v.record? ["extraction", "output"] with
  | [extraction, output] =>
    some {
      extraction := ← defaulted {} ExtractionConfig.ofToml? extraction
      output := ← defaulted {} OutputConfig.ofToml? output }
  | _ => none

/-- The config that a text describes. -/
def parse (text : String) : Except Failure Config :=
  match Toml.parse? text >>= ofToml? with
  | some c => .ok c
  | none => .error .invalidConfig

end Config

end TrapFacts
