import TrapFacts.Proofs.Json.Scalars

/-! Reading what was printed: every value on one line is read back as it was. -/

namespace TrapFacts.Json

open Digits (isDigit)

variable {c : Char} {rest : List Char}

mutual

/-- The depth of the calls that read a value, its items counted one behind the other. -/
def reach : Json → Nat
  | .array items => reachItems items + 1
  | .object fields => reachFields fields + 1
  | _ => 1

def reachItems : List Json → Nat
  | [] => 0
  | item :: items => item.reach + reachItems items + 1

def reachFields : List (Option String × Json) → Nat
  | [] => 0
  | (_, value) :: fields => value.reach + reachFields fields + 1

end

/-- What stands behind the first item. -/
def printTail (items : List Json) (rest : List Char) : List Char :=
  match items with
  | [] => rest
  | item :: items => ',' :: printItems (item :: items) rest

def printFieldsTail (fields : List (Option String × Json)) (rest : List Char) : List Char :=
  match fields with
  | [] => rest
  | field :: fields => ',' :: printFields (field :: fields) rest

theorem printItems_cons (item : Json) (items : List Json) (rest : List Char) :
    printItems (item :: items) rest = item.print (printTail items rest) := by
  cases items <;> rfl

theorem printFields_cons (name : Option String) (value : Json)
    (fields : List (Option String × Json)) (rest : List Char) :
    printFields ((name, value) :: fields) rest =
      printString name (':' :: value.print (printFieldsTail fields rest)) := by
  cases fields <;> rfl

theorem scanValue_number (fuel : Nat) (x : Number) (h : Follows rest) :
    scanValue (fuel + 1) (printNumber x rest) = some (.number x, rest) := by
  have hscan := scanNumber_print x h
  obtain ⟨c, cs, hcs, hc⟩ := printNumber_eq_cons x rest
  rw [hcs] at hscan ⊢
  have hother : ∀ d, d = '-' ∨ isDigit d = true → d ≠ '"' ∧ d ≠ '[' ∧ d ≠ '\x7b' ∧ d ≠ 'n' ∧
      d ≠ 't' ∧ d ≠ 'f' := by
    intro d hd
    refine ⟨?_, ?_, ?_, ?_, ?_, ?_⟩ <;> rintro rfl <;> revert hd <;> decide
  obtain ⟨hquote, hbracket, hbrace, hn, ht, hf⟩ := hother c hc
  rw [scanValue, hscan, Option.map_some] <;> simp_all

/-- A value does not begin with a blank or a closing bracket. -/
theorem print_eq_cons (j : Json) (rest : List Char) :
    ∃ c cs, j.print rest = c :: cs ∧ isBlank c = false ∧ c ≠ ']' := by
  cases j with
  | null => exact ⟨_, _, rfl, by decide⟩
  | bool b => cases b <;> exact ⟨_, _, rfl, by decide⟩
  | number x =>
    obtain ⟨c, cs, hcs, hc⟩ := printNumber_eq_cons x rest
    refine ⟨c, cs, hcs, ?_⟩
    rcases hc with rfl | hd
    · decide
    · refine ⟨Bool.eq_false_iff.mpr fun hblank => ?_, ?_⟩
      · simp only [isBlank, Bool.or_eq_true, beq_iff_eq] at hblank
        rcases hblank with ((rfl | rfl) | rfl) | rfl <;> cases hd
      · rintro rfl
        cases hd
  | string s =>
    obtain ⟨cs, hcs, -⟩ := scanString_print s rest
    exact ⟨_, _, hcs, by decide⟩
  | array items => exact ⟨_, _, rfl, by decide⟩
  | object fields => exact ⟨_, _, rfl, by decide⟩

theorem skipBlanks_cons (cs : List Char) (h : isBlank c = false) :
    skipBlanks (c :: cs) = c :: cs := by
  simp [skipBlanks, h]

theorem skipBlanks_print (j : Json) (rest : List Char) :
    skipBlanks (j.print rest) = j.print rest := by
  obtain ⟨c, cs, hcs, hblank, -⟩ := print_eq_cons j rest
  rw [hcs, skipBlanks_cons cs hblank]

mutual

/-- A value is read back where the calls are enough, and what stands behind it is left. -/
theorem scanValue_print : ∀ (j : Json) (fuel : Nat) (rest : List Char), j.reach ≤ fuel →
    Follows rest → scanValue fuel (j.print rest) = some (j, rest)
  | j, 0, rest, hfuel, _ => by cases j <;> simp [reach] at hfuel
  | .null, fuel + 1, rest, _, _ => rfl
  | .bool true, fuel + 1, rest, _, _ => rfl
  | .bool false, fuel + 1, rest, _, _ => rfl
  | .number x, fuel + 1, rest, _, h => scanValue_number fuel x h
  | .string s, fuel + 1, rest, _, _ => by
    obtain ⟨cs, hcs, hscan⟩ := scanString_print s rest
    rw [print, hcs, scanValue, hscan, Option.map_some]
  | .array [], fuel + 1, rest, _, _ => rfl
  | .array (item :: items), fuel + 1, rest, hfuel, _ => by
    have hitems := scanItems_print item items fuel rest (by
      simp only [reach] at hfuel
      omega)
    -- The first item does not look like the end of the list.
    obtain ⟨c, cs, hcs, hblank, hbracket⟩ := print_eq_cons item (printTail items (']' :: rest))
    rw [printItems_cons, hcs] at hitems
    rw [print, printItems_cons, hcs, scanValue]
    simp [skipBlanks_cons, hblank, hbracket, hitems]
  | .object [], fuel + 1, rest, _, _ => rfl
  | .object ((name, value) :: fields), fuel + 1, rest, hfuel, _ => by
    have hfields := scanFields_print name value fields fuel rest (by
      simp only [reach] at hfuel
      omega)
    obtain ⟨cs, hcs, -⟩ := scanString_print name
      (':' :: value.print (printFieldsTail fields ('\x7d' :: rest)))
    rw [printFields_cons, hcs] at hfields
    rw [print, printFields_cons, hcs, scanValue]
    simp [skipBlanks_cons, isBlank, hfields]

/-- Items that were printed are read back, with enough fuel for the deepest of them. -/
theorem scanItems_print : ∀ (item : Json) (items : List Json) (fuel : Nat) (rest : List Char),
    reachItems (item :: items) ≤ fuel →
    scanItems fuel (printItems (item :: items) (']' :: rest)) = some (item :: items, rest)
  | item, items, 0, rest, hfuel => by simp [reachItems] at hfuel
  | item, [], fuel + 1, rest, hfuel => by
    simp only [reachItems] at hfuel
    have hitem := scanValue_print item fuel (']' :: rest) (by omega) .bracket
    simp [scanItems, printItems_cons, printTail, skipBlanks_print, hitem, skipBlanks_cons, isBlank]
  | item, next :: items, fuel + 1, rest, hfuel => by
    rw [reachItems] at hfuel
    have hitem := scanValue_print item fuel
      (',' :: printItems (next :: items) (']' :: rest)) (by omega) .comma
    have hitems := scanItems_print next items fuel rest (by omega)
    simp [scanItems, printItems_cons item, printTail, skipBlanks_print, hitem, skipBlanks_cons,
      isBlank, hitems]

/-- Fields that were printed are read back, with enough fuel for the deepest of them. -/
theorem scanFields_print : ∀ (name : Option String) (value : Json)
    (fields : List (Option String × Json)) (fuel : Nat) (rest : List Char),
    reachFields ((name, value) :: fields) ≤ fuel →
    scanFields fuel (printFields ((name, value) :: fields) ('\x7d' :: rest)) =
      some ((name, value) :: fields, rest)
  | name, value, fields, 0, rest, hfuel => by simp [reachFields] at hfuel
  | name, value, [], fuel + 1, rest, hfuel => by
    simp only [reachFields] at hfuel
    have hvalue := scanValue_print value fuel ('\x7d' :: rest) (by omega) .brace
    obtain ⟨cs, hcs, hname⟩ := scanString_print name (':' :: value.print ('\x7d' :: rest))
    simp [scanFields, printFields_cons, printFieldsTail, hcs, skipBlanks_cons, isBlank, hname,
      skipBlanks_print, hvalue]
  | name, value, (name', value') :: fields, fuel + 1, rest, hfuel => by
    rw [reachFields] at hfuel
    have hvalue := scanValue_print value fuel
      (',' :: printFields ((name', value') :: fields) ('\x7d' :: rest)) (by omega) .comma
    have hfields := scanFields_print name' value' fields fuel rest (by omega)
    obtain ⟨cs, hcs, hname⟩ := scanString_print name
      (':' :: value.print (',' :: printFields ((name', value') :: fields) ('\x7d' :: rest)))
    simp [scanFields, printFields_cons name, printFieldsTail, hcs, skipBlanks_cons, isBlank, hname,
      skipBlanks_print, hvalue, hfields]

end

mutual

/-- A text is long enough for the calls that read it. -/
theorem reach_le : ∀ (j : Json) (rest : List Char),
    j.reach + 2 * rest.length ≤ 2 * (j.print rest).length
  | .null, rest => by simp [reach, print]; omega
  | .bool true, rest => by simp [reach, print]; omega
  | .bool false, rest => by simp [reach, print]; omega
  | .number x, rest => by
    have hlength := length_printNumber x rest
    rw [reach, print]
    all_goals simp
    omega
  | .string s, rest => by
    have hlength := length_printString s rest
    rw [reach, print]
    all_goals simp
    omega
  | .array items, rest => by
    have hitems := reachItems_le items (']' :: rest)
    simp [reach, print] at hitems ⊢
    omega
  | .object fields, rest => by
    have hfields := reachFields_le fields ('\x7d' :: rest)
    simp [reach, print] at hfields ⊢
    omega

theorem reachItems_le : ∀ (items : List Json) (rest : List Char),
    reachItems items + 2 * rest.length ≤ 2 * (printItems items rest).length + 1
  | [], rest => by simp [reachItems, printItems]
  | [item], rest => by
    have hitem := reach_le item rest
    simp [reachItems, printItems]
    omega
  | item :: next :: items, rest => by
    have hitems := reachItems_le (next :: items) rest
    have hitem := reach_le item (',' :: printItems (next :: items) rest)
    rw [reachItems, printItems_cons, printTail]
    simp only [List.length_cons] at hitem
    omega

theorem reachFields_le : ∀ (fields : List (Option String × Json)) (rest : List Char),
    reachFields fields + 2 * rest.length ≤ 2 * (printFields fields rest).length + 1
  | [], rest => by simp [reachFields, printFields]
  | [(name, value)], rest => by
    have hvalue := reach_le value rest
    have hname := length_printString name (':' :: value.print rest)
    simp [reachFields, printFields] at hname ⊢
    omega
  | (name, value) :: (name', value') :: fields, rest => by
    have hfields := reachFields_le ((name', value') :: fields) rest
    have hvalue := reach_le value (',' :: printFields ((name', value') :: fields) rest)
    have hname := length_printString name
      (':' :: value.print (',' :: printFields ((name', value') :: fields) rest))
    rw [reachFields, printFields_cons, printFieldsTail]
    simp only [List.length_cons] at hvalue hname
    omega

end

/-- Every value is read back from its text. -/
theorem parse?_render (j : Json) : parse? j.render = some j := by
  have hreach := reach_le j []
  have hscan := scanValue_print j (2 * (j.print []).length + 2) []
    (by simp at hreach; omega) .nil
  simp [parse?, render, skipBlanks_print, hscan]
  rfl

end TrapFacts.Json
