import Mathlib.Data.List.TakeDrop
import TrapFacts.Record

/-! Reading traps: the text of a trap tells its records, up to how their keys are put together. -/

namespace TrapFacts

variable {c : Char} {rest s : List Char} {r : Record} {rs rs' : List Record}

/-- What the front of a text says, and the rest of the text. -/
abbrev Reader (α : Type) := List Char → Option (α × List Char)

namespace Reader

def number : Reader Nat := fun cs =>
  if cs.takeWhile Char.isDigit = [] then none
  else some (Nat.ofDigitChars 10 (cs.takeWhile Char.isDigit) 0, cs.dropWhile Char.isDigit)

/-- The text in front of a quote that stands alone. -/
def quoted : Reader (List Char)
  | [] => none
  | '"' :: '"' :: cs => (quoted cs).map fun (s, rest) => ('"' :: s, rest)
  | '"' :: cs => some ([], cs)
  | c :: cs => (quoted cs).map fun (s, rest) => (c :: s, rest)

def label : Reader Label
  | '#' :: cs => (number cs).map fun (n, rest) => (⟨n⟩, rest)
  | _ => none

def text : Reader String
  | '"' :: cs => (quoted cs).map fun (s, rest) => (String.ofList s, rest)
  | _ => none

def int : Reader Int := fun cs =>
  if cs.head? = some '-' then (number cs.tail).map fun (n, rest) => (-n, rest)
  else (number cs).map fun (n, rest) => (n, rest)

def value : Reader Value := fun cs =>
  if cs.head? = some '#' then (label cs).map fun (l, rest) => (.label l, rest)
  else if cs.head? = some '"' then (text cs).map fun (s, rest) => (.text s, rest)
  else (int cs).map fun (n, rest) => (.int n, rest)

/-- One or more values, up to the closing bracket. -/
def values (cs : List Char) : Option (List Value × List Char) :=
  match value cs with
  | some (v, ')' :: rest) => some ([v], rest)
  | some (v, ',' :: rest) =>
    if rest.length < cs.length then (values rest).map fun (vs, rest) => (v :: vs, rest) else none
  | _ => none
termination_by cs.length

/-- A key, as a text without parts. -/
def key : Reader Key
  | '@' :: cs => (text cs).map fun (s, rest) => (.literal s, rest)
  | _ => none

def introduction : Reader Record := fun cs =>
  match label cs with
  | some (l, '=' :: '*' :: rest) => some (.fresh l, rest)
  | some (l, '=' :: rest) => (key rest).map fun (k, rest) => (.define l k, rest)
  | _ => none

def guard : Reader Record
  | '.' :: 'p' :: 'o' :: 'p' :: rest => some (.pop, rest)
  | '.' :: 'p' :: 'u' :: 's' :: 'h' :: ' ' :: cs =>
    (key cs).map fun (k, rest) => (.push k, rest)
  | _ => none

def comment : Reader Record
  | '/' :: '/' :: ' ' :: cs =>
    some (.comment (String.ofList (cs.takeWhile (· ≠ '\n'))), cs.dropWhile (· ≠ '\n'))
  | _ => none

def arguments : Reader (List Value) := fun cs =>
  if cs.head? = some ')' then some ([], cs.tail) else values cs

def tuple : Reader Record := fun cs =>
  let relation := String.ofList (cs.takeWhile (· ≠ '('))
  (arguments (cs.dropWhile (· ≠ '(')).tail).map fun (args, rest) => (.tuple ⟨relation, args⟩, rest)

def record : Reader Record := fun cs =>
  if cs.head? = some '#' then introduction cs
  else if cs.head? = some '.' then guard cs
  else if cs.head? = some '/' then comment cs
  else tuple cs

def records (cs : List Char) : Option (List Record) :=
  if cs = [] then some []
  else match record cs with
  | some (r, '\n' :: rest) =>
    if rest.length < cs.length then (records rest).map (r :: ·) else none
  | _ => none
termination_by cs.length

end Reader

/-- The records of a trap's text. -/
def readTrap (s : String) : Option (List Record) :=
  Reader.records s.toList

namespace Record

def rendered : Record → Record
  | define l k => define l (.literal k.render)
  | push k => push (.literal k.render)
  | r => r

/-- What a line can hold: a relation is no beginning of another record and has no bracket in its
name, and a comment has one line. -/
def IsLine : Record → Prop
  | tuple t => '(' ∉ t.relation.toList ∧ ∀ c ∈ t.relation.toList.head?, c ∉ ['#', '.', '/']
  | comment s => '\n' ∉ s.toList
  | _ => True

end Record

namespace Reader

theorem isDigit_of_mem {n : Nat} {d : Char} (h : d ∈ Nat.toDigits 10 n) : d.isDigit = true :=
  Nat.isDigit_of_mem_toDigits (by decide) (by decide) h

theorem number_digits (n : Nat) (hc : c.isDigit = false) :
    number (Nat.toDigits 10 n ++ c :: rest) = some (n, c :: rest) := by
  have htake : (Nat.toDigits 10 n ++ c :: rest).takeWhile Char.isDigit = Nat.toDigits 10 n := by
    rw [List.takeWhile_append_of_pos fun d => isDigit_of_mem,
      List.takeWhile_cons_of_neg (by simp [hc]), List.append_nil]
  have hdrop : (Nat.toDigits 10 n ++ c :: rest).dropWhile Char.isDigit = c :: rest := by
    rw [List.dropWhile_append_of_pos fun d => isDigit_of_mem,
      List.dropWhile_cons_of_neg (by simp [hc])]
  rw [number, htake, hdrop, if_neg Nat.toDigits_ne_nil,
    Nat.ofDigitChars_toDigits (by decide) (by decide)]

/-- A number without a sign begins with a digit. -/
theorem head?_digits (n : Nat) (cs : List Char) :
    ∃ d, (Nat.toDigits 10 n ++ cs).head? = some d ∧ d.isDigit = true := by
  obtain ⟨d, ds, hds⟩ := List.exists_cons_of_ne_nil (Nat.toDigits_ne_nil (b := 10) (n := n))
  exact ⟨d, by simp [hds], isDigit_of_mem (n := n) (by simp [hds])⟩

/-- A number that was spelled is read back, if no digit follows it. -/
theorem int_spelling (n : Int) (hc : c.isDigit = false) :
    int ((toString n).toList ++ c :: rest) = some (n, c :: rest) := by
  cases n with
  | ofNat n =>
    obtain ⟨d, hd, hdigit⟩ := head?_digits n (c :: rest)
    have hsign : d ≠ '-' := by
      rintro rfl
      cases hdigit
    simp [Int.toString_eq_repr, Int.repr, int, number_digits n hc, hd, hsign]
  | negSucc n =>
    have htext : (toString (Int.negSucc n)).toList = '-' :: Nat.toDigits 10 (n + 1) := by
      simp [Int.toString_eq_repr, Int.repr]
    rw [htext, List.cons_append, int, if_pos List.head?_cons, List.tail_cons,
      number_digits (n + 1) hc, Option.map_some]
    rfl

/-- Inside quotes every quote is one of two, so the first that is not ends the text. -/
theorem quoted_double (s : List Char) (hc : c ≠ '"') (rest : List Char) :
    quoted (Quoted.double s ++ '"' :: c :: rest) = some (s, c :: rest) := by
  induction s with
  | nil => simp [Quoted.double, quoted, hc]
  | cons d s ih =>
    by_cases hd : d = '"'
    · subst hd
      simp [Quoted.double, quoted, ih]
    · simp [Quoted.double, quoted, hd, ih]

theorem head?_label (l : Label) (cs : List Char) : (l.text.toList ++ cs).head? = some '#' := by
  simp [Label.text]

theorem head?_quote (s : String) (cs : List Char) :
    ((Quoted.quote s).toList ++ cs).head? = some '"' := by
  simp [Quoted.quote]

theorem head?_int (n : Int) (cs : List Char) (hc : c.isDigit = false) (hsign : c ≠ '-') :
    ((toString n).toList ++ cs).head? ≠ some c := by
  intro h
  cases n with
  | ofNat n =>
    obtain ⟨d, hd, hdigit⟩ := head?_digits n cs
    have heq : some d = some c := by
      rw [← h, ← hd]
      simp [Int.toString_eq_repr, Int.repr]
    rw [Option.some.inj heq, hc] at hdigit
    cases hdigit
  | negSucc n =>
    have heq : some '-' = some c := by
      rw [← h]
      simp [Int.toString_eq_repr, Int.repr]
    exact hsign (Option.some.inj heq).symm

theorem label_spelling (l : Label) (hc : c.isDigit = false) (rest : List Char) :
    label (l.text.toList ++ c :: rest) = some (l, c :: rest) := by
  simp [Label.text, label, number_digits l.number hc]

/-- A text that was quoted is read back, if no quote follows it. -/
theorem text_spelling (s : String) (hc : c ≠ '"') (rest : List Char) :
    text ((Quoted.quote s).toList ++ c :: rest) = some (s, c :: rest) := by
  simp [Quoted.quote, text, quoted_double s.toList hc rest]

/-- A key that was spelled is read back as the text that it renders to. -/
theorem key_spelling (k : Key) (hc : c ≠ '"') (rest : List Char) :
    key (k.spelling.toList ++ c :: rest) = some (.literal k.render, c :: rest) := by
  simp [Key.spelling, key, text_spelling k.render hc rest]

theorem value_spelling (v : Value) (hc : c = ',' ∨ c = ')') (rest : List Char) :
    value (v.spelling.toList ++ c :: rest) = some (v, c :: rest) := by
  have hdigit : c.isDigit = false := by
    rcases hc with rfl | rfl <;> rfl
  have hquote : c ≠ '"' := by
    rcases hc with rfl | rfl <;> decide
  cases v with
  | label l =>
    rw [Value.spelling, value, if_pos (head?_label l _), label_spelling l hdigit rest]
    rfl
  | int n =>
    have hlabel := head?_int n (c :: rest) (c := '#') rfl (by decide)
    have htext := head?_int n (c :: rest) (c := '"') rfl (by decide)
    rw [Value.spelling, value, if_neg hlabel, if_neg htext, int_spelling n hdigit]
    rfl
  | text s =>
    have hlabel : ((Quoted.quote s).toList ++ c :: rest).head? ≠ some '#' := by
      rw [head?_quote]
      decide
    rw [Value.spelling, value, if_neg hlabel, if_pos (head?_quote s _), text_spelling s hquote rest]
    rfl

/-- The values of a fact as they stand between its brackets. -/
def spellings (vs : List Value) : List Char :=
  (",".intercalate (vs.map Value.spelling)).toList

theorem spellings_cons (v v' : Value) (vs : List Value) :
    spellings (v :: v' :: vs) = v.spelling.toList ++ ',' :: spellings (v' :: vs) := by
  simp [spellings, String.intercalate_cons_cons]

/-- Arguments that were spelled are read back one by one. -/
theorem values_spelling (v : Value) (vs : List Value) (rest : List Char) :
    values (spellings (v :: vs) ++ ')' :: rest) = some (v :: vs, rest) := by
  induction vs generalizing v with
  | nil =>
    have hv := value_spelling v (.inr rfl) rest
    rw [values]
    simp [spellings, hv]
  | cons v' vs ih =>
    have hv := value_spelling v (.inl rfl) (spellings (v' :: vs) ++ ')' :: rest)
    rw [spellings_cons, List.append_assoc, List.cons_append, values, hv]
    have hshorter : (spellings (v' :: vs) ++ ')' :: rest).length <
        (v.spelling.toList ++ ',' :: (spellings (v' :: vs) ++ ')' :: rest)).length := by
      simp
      omega
    simp only [if_pos hshorter, ih, Option.map_some]

theorem head?_values (v : Value) (vs : List Value) (cs : List Char) :
    (spellings (v :: vs) ++ cs).head? ≠ some ')' := by
  have hv : ∀ cs, (v.spelling.toList ++ cs).head? ≠ some ')' := by
    intro cs
    cases v with
    | label l =>
      rw [Value.spelling, head?_label]
      decide
    | int n => exact head?_int n cs rfl (by decide)
    | text s =>
      rw [Value.spelling, head?_quote]
      decide
  cases vs with
  | nil =>
    have hone : spellings [v] = v.spelling.toList := by simp [spellings]
    rw [hone]
    exact hv cs
  | cons v' vs =>
    rw [spellings_cons, List.append_assoc]
    exact hv _

theorem arguments_spelling (vs : List Value) (rest : List Char) :
    arguments (spellings vs ++ ')' :: rest) = some (vs, rest) := by
  cases vs with
  | nil => rfl
  | cons v vs => rw [arguments, if_neg (head?_values v vs _), values_spelling]

theorem takeWhile_ne {d : Char} (h : d ∉ s) (cs : List Char) :
    (s ++ d :: cs).takeWhile (· ≠ d) = s := by
  rw [List.takeWhile_append_of_pos (by grind), List.takeWhile_cons_of_neg (by simp),
    List.append_nil]

theorem dropWhile_ne {d : Char} (h : d ∉ s) (cs : List Char) :
    (s ++ d :: cs).dropWhile (· ≠ d) = d :: cs := by
  rw [List.dropWhile_append_of_pos (by grind), List.dropWhile_cons_of_neg (by simp)]

theorem toList_tuple (t : Tuple) (rest : List Char) :
    t.spelling.toList ++ rest = t.relation.toList ++ '(' :: (spellings t.args ++ ')' :: rest) := by
  simp [Tuple.spelling, spellings]

/-- A fact that was spelled is read back, if its relation has no bracket in its name. -/
theorem tuple_spelling (t : Tuple) (h : '(' ∉ t.relation.toList) (rest : List Char) :
    tuple (t.spelling.toList ++ rest) = some (.tuple t, rest) := by
  rw [toList_tuple, tuple, takeWhile_ne h, dropWhile_ne h, String.ofList_toList, List.tail_cons,
    arguments_spelling]
  rfl

theorem introduction_define (l : Label) (k : Key) (hc : c ≠ '"') :
    introduction (l.text.toList ++ '=' :: (k.spelling.toList ++ c :: rest)) =
      some (.define l (.literal k.render), c :: rest) := by
  have hl := label_spelling l (c := '=') rfl (k.spelling.toList ++ c :: rest)
  have hk := key_spelling k hc rest
  have hstart : k.spelling.toList = '@' :: (Quoted.quote k.render).toList := by
    simp [Key.spelling]
  rw [hstart] at hl hk ⊢
  rw [introduction, hl]
  simp only [List.cons_append] at hk ⊢
  simp [hk]

theorem introduction_fresh (l : Label) (rest : List Char) :
    introduction (l.text.toList ++ '=' :: '*' :: rest) = some (.fresh l, rest) := by
  rw [introduction, label_spelling l rfl _]
  rfl

/-- A relation is read as such if it does not begin like another record. -/
theorem record_tuple (t : Tuple) (hname : '(' ∉ t.relation.toList)
    (hstart : ∀ c ∈ t.relation.toList.head?, c ∉ ['#', '.', '/']) (rest : List Char) :
    record (t.spelling.toList ++ rest) = some (.tuple t, rest) := by
  have hhead : ∀ c ∈ ['#', '.', '/'], (t.spelling.toList ++ rest).head? ≠ some c := by
    intro c hc
    rw [toList_tuple]
    cases hr : t.relation.toList with
    | nil =>
      rintro ⟨⟩
      exact absurd hc (by decide)
    | cons d ds =>
      rintro ⟨⟩
      exact hstart c (by simp [hr]) hc
  rw [record, if_neg (hhead '#' (by decide)), if_neg (hhead '.' (by decide)),
    if_neg (hhead '/' (by decide)), tuple_spelling t hname]

/-- A record that was spelled on a line is read back from it. -/
theorem record_spelling (h : r.IsLine) (rest : List Char) :
    record (r.spelling.toList ++ '\n' :: rest) = some (r.rendered, '\n' :: rest) := by
  cases r with
  | define l k =>
    have hsplit : (Record.define l k).spelling.toList ++ '\n' :: rest =
        l.text.toList ++ '=' :: (k.spelling.toList ++ '\n' :: rest) := by
      simp [Record.spelling]
    rw [hsplit, record, if_pos (head?_label l _), introduction_define l k (by decide)]
    rfl
  | fresh l =>
    have hsplit : (Record.fresh l).spelling.toList ++ '\n' :: rest =
        l.text.toList ++ '=' :: '*' :: '\n' :: rest := by
      simp [Record.spelling]
    rw [hsplit, record, if_pos (head?_label l _), introduction_fresh]
    rfl
  | push k =>
    have hk := key_spelling k (c := '\n') (by decide) rest
    simp [Record.spelling, record, guard, hk, Record.rendered]
  | pop => simp [Record.spelling, record, guard, Record.rendered]
  | comment s =>
    have hs : '\n' ∉ s.toList := h
    have hsplit : (Record.comment s).spelling.toList ++ '\n' :: rest =
        '/' :: '/' :: ' ' :: (s.toList ++ '\n' :: rest) := by
      simp [Record.spelling]
    rw [hsplit, record, if_neg (by simp), if_neg (by simp), if_pos List.head?_cons, comment,
      takeWhile_ne hs, dropWhile_ne hs, String.ofList_toList]
    rfl
  | tuple t => exact record_tuple t h.1 h.2 _

/-- A trap is read back line by line. -/
theorem records_trapText (h : ∀ r ∈ rs, r.IsLine) :
    records (trapText rs).toList = some (rs.map Record.rendered) := by
  induction rs with
  | nil =>
    rw [records]
    rfl
  | cons r rs ih =>
    have hr := record_spelling (h r List.mem_cons_self) (trapText rs).toList
    have hrs := ih fun r hr => h r (List.mem_cons_of_mem _ hr)
    have hsplit : (trapText (r :: rs)).toList =
        r.spelling.toList ++ '\n' :: (trapText rs).toList := by
      simp [trapText, String.toList_join]
    have hshorter : (trapText rs).toList.length <
        (r.spelling.toList ++ '\n' :: (trapText rs).toList).length := by
      simp
      omega
    rw [hsplit, records, if_neg (by simp), hr]
    simp only [if_pos hshorter, hrs]
    rfl

end Reader

namespace Quoted

theorem double_inj {s s' : List Char} (h : double s = double s') : s = s' := by
  have hread := Reader.quoted_double s (c := ' ') (by decide) []
  rw [h, Reader.quoted_double s' (by decide) []] at hread
  exact (Prod.mk.inj (Option.some.inj hread)).1.symm

/-- Texts are told apart when they are quoted. -/
theorem quote_inj {s s' : String} (h : quote s = quote s') : s = s' := by
  have htext := (String.append_left_inj _).1 h
  have hdouble := String.ofList_inj.1 ((String.append_right_inj _).1 htext)
  exact String.toList_inj.1 (double_inj hdouble)

end Quoted

/-- Keys are spelled alike where they render alike. -/
theorem Key.spelling_eq_iff (k k' : Key) : k.spelling = k'.spelling ↔ k.render = k'.render := by
  constructor
  · intro h
    exact Quoted.quote_inj ((String.append_right_inj _).1 h)
  · intro h
    rw [spelling, spelling, h]

namespace Record

theorem spelling_rendered (r : Record) : r.rendered.spelling = r.spelling := by
  cases r with
  | define l k => simp [rendered, spelling, Key.spelling, Key.render, Key.literal]
  | push k => simp [rendered, spelling, Key.spelling, Key.render, Key.literal]
  | _ => rfl

end Record

theorem trapText_rendered (rs : List Record) :
    trapText (rs.map Record.rendered) = trapText rs := by
  simp only [trapText, List.map_map, Function.comp_def, Record.spelling_rendered]

/-- Whatever stands in its keys, its texts and its comments, the text of a trap tells the trap's
records: reading gives them back, and only records that are alike, but for how their keys are put
together, have the same text. -/
theorem readTrap_trapText :
    (∀ rs : List Record, (∀ r ∈ rs, r.IsLine) →
      readTrap (trapText rs) = some (rs.map Record.rendered)) ∧
    (∀ rs rs' : List Record, (∀ r ∈ rs, r.IsLine) → (∀ r ∈ rs', r.IsLine) →
      (trapText rs = trapText rs' ↔ rs.map Record.rendered = rs'.map Record.rendered)) ∧
    ∀ k k' : Key, k.spelling = k'.spelling ↔ k.render = k'.render := by
  refine ⟨fun rs h => Reader.records_trapText h, ?_, Key.spelling_eq_iff⟩
  intro rs rs' h h'
  constructor
  · intro htext
    have hread := Reader.records_trapText h
    rw [htext, Reader.records_trapText h'] at hread
    exact (Option.some.inj hread).symm
  · intro hrecords
    rw [← trapText_rendered rs, hrecords, trapText_rendered]

/-- Quotes, ends of lines and what looks like other records, in a key and in a text. -/
theorem readTrap_trapText_quotes :
    let rs : List Record := [
      .define ⟨1⟩ (.text "a\"\n#2=*" (.int (-3) .nil)),
      .push (.label ⟨1⟩ (.literal "),\"")),
      .tuple ⟨"type_arguments", [.label ⟨1⟩, .int (-7), .text "\"\n.pop\n(x,\"y\")"]⟩,
      .pop,
      .tuple ⟨"empty", []⟩,
      .comment "#3=@\""]
    (∀ r ∈ rs, r.IsLine) ∧ readTrap (trapText rs) = some (rs.map Record.rendered) := by
  intro rs
  have hline : ∀ r ∈ rs, r.IsLine := by
    simp [rs, Record.IsLine]
  exact ⟨hline, readTrap_trapText.1 rs hline⟩

end TrapFacts
