import Mathlib.Data.List.TakeDrop
import TrapFacts.Json.Parser
import TrapFacts.Json.Printer

/-! Reading numbers and strings that were printed. -/

namespace TrapFacts.Json

open Digits (isDigit digitValue hexValue? natOfDigits splitSign withSign)

variable {c : Char} {rest : List Char} {n : Nat}

theorem isDigit_eq (c : Char) : isDigit c = c.isDigit := by
  simp [isDigit, Char.isDigit, Char.le_def]

theorem natOfDigits_map (cs : List Char) :
    natOfDigits 10 (cs.map digitValue) = Nat.ofDigitChars 10 cs 0 := by
  simp [natOfDigits, Nat.ofDigitChars_eq_foldl, List.foldl_map, digitValue, Nat.mul_comm]

theorem isDigit_of_mem_toDigits (h : c ∈ Nat.toDigits 10 n) : isDigit c = true := by
  rw [isDigit_eq]
  exact Nat.isDigit_of_mem_toDigits (by decide) (by decide) h

/-- A number is written without leading zeros. -/
theorem head_toDigits (h : 0 < n) : ∃ d ds, Nat.toDigits 10 n = d :: ds ∧ d ≠ '0' := by
  induction n using Nat.strongRecOn with
  | ind n ih =>
    by_cases hlt : n < 10
    · refine ⟨n.digitChar, [], Nat.toDigits_of_lt_base hlt, ?_⟩
      have hdigit : ∀ d < 10, 0 < d → d.digitChar ≠ '0' := by decide
      exact hdigit n hlt h
    · obtain ⟨d, ds, hds, hd⟩ := ih (n / 10) (by omega) (by omega)
      refine ⟨d, ds ++ [(n % 10).digitChar], ?_, hd⟩
      rw [Nat.toDigits_of_base_le (by decide) (by omega), hds, List.cons_append]

/-- The front of a number is one of its digits. -/
theorem printNat_eq_cons (n : Nat) (rest : List Char) :
    ∃ d cs, printNat n rest = d :: cs ∧ isDigit d = true := by
  obtain ⟨d, ds, hds⟩ := List.exists_cons_of_ne_nil (Nat.toDigits_ne_nil (b := 10) (n := n))
  exact ⟨d, ds ++ rest, by simp [printNat, hds], isDigit_of_mem_toDigits (n := n) (by simp [hds])⟩

theorem scanDigits_printNat (n : Nat) (hrest : ∀ c ∈ rest.head?, isDigit c = false) :
    scanDigits (printNat n rest) = ((Nat.toDigits 10 n).map digitValue, rest) := by
  have htake : rest.takeWhile isDigit = [] := by
    cases rest with
    | nil => rfl
    | cons c cs => simp [hrest c rfl]
  have hdrop : rest.dropWhile isDigit = rest := by
    cases rest with
    | nil => rfl
    | cons c cs => simp [hrest c rfl]
  simp only [scanDigits, printNat, List.span_eq_takeWhile_dropWhile,
    List.takeWhile_append_of_pos fun _ => isDigit_of_mem_toDigits,
    List.dropWhile_append_of_pos fun _ => isDigit_of_mem_toDigits, htake, hdrop, List.append_nil]

theorem natOfDigits_toDigits (n : Nat) :
    natOfDigits 10 ((Nat.toDigits 10 n).map digitValue) = n := by
  rw [natOfDigits_map, Nat.ofDigitChars_ten_toDigits]

/-- A zero is read alone, so no other number may begin with one. -/
theorem scanWhole_printNat (n : Nat) (hrest : ∀ c ∈ rest.head?, isDigit c = false) :
    scanWhole (printNat n rest) = some ((Nat.toDigits 10 n).map digitValue, rest) := by
  rcases Nat.eq_zero_or_pos n with rfl | hn
  · rfl
  · obtain ⟨d, ds, hds, hd⟩ := head_toDigits hn
    have hscan := scanDigits_printNat n hrest
    simp only [printNat, hds, List.cons_append, List.map_cons] at hscan ⊢
    rw [scanWhole, hscan]
    simp [hd]

/-- What can stand behind a value: nothing that a number goes on with. -/
def Follows (rest : List Char) : Prop :=
  ∀ c ∈ rest.head?, isDigit c = false ∧ c ≠ '.' ∧ c ≠ 'e' ∧ c ≠ 'E'

theorem Follows.nil : Follows [] := by
  simp [Follows]

theorem Follows.comma : Follows (',' :: rest) := by
  simp [Follows]; decide

theorem Follows.bracket : Follows (']' :: rest) := by
  simp [Follows]; decide

theorem Follows.brace : Follows ('\x7d' :: rest) := by
  simp [Follows]; decide

theorem Follows.noDigit (h : Follows rest) : ∀ c ∈ rest.head?, isDigit c = false :=
  fun c hc => (h c hc).1

theorem scanFraction_none (h : ∀ c ∈ rest.head?, c ≠ '.') :
    scanFraction rest = some (none, rest) := by
  cases rest with
  | nil => rfl
  | cons c cs => simp [scanFraction, h c rfl]

theorem scanExponent_none (h : Follows rest) : scanExponent rest = some (none, rest) := by
  cases rest with
  | nil => rfl
  | cons c cs => simp [scanExponent, (h c rfl).2.2.1, (h c rfl).2.2.2]

theorem splitSign_printSign (negative : Bool) (n : Nat) :
    splitSign (printSign negative (printNat n rest)) = (negative, printNat n rest) := by
  cases negative with
  | true => rfl
  | false =>
    obtain ⟨d, cs, hcs, hd⟩ := printNat_eq_cons n rest
    have hminus : d ≠ '-' := by rintro rfl; cases hd
    have hplus : d ≠ '+' := by rintro rfl; cases hd
    simp [printSign, hcs, splitSign, hminus, hplus]

theorem withSign_natAbs (scale : Int) : withSign (scale < 0) scale.natAbs = scale := by
  by_cases h : scale < 0
  · rw [withSign, if_pos (decide_eq_true h)]
    omega
  · rw [withSign, if_neg (by simpa using h)]
    omega

theorem scanExponent_print (scale : Int) (hrest : ∀ c ∈ rest.head?, isDigit c = false) :
    scanExponent ('e' :: printSign (scale < 0) (printNat scale.natAbs rest)) =
      some (some scale, rest) := by
  obtain ⟨d, ds, hds⟩ := List.exists_cons_of_ne_nil
    (Nat.toDigits_ne_nil (b := 10) (n := scale.natAbs))
  have hvalue := natOfDigits_toDigits scale.natAbs
  simp only [hds, List.map_cons] at hvalue
  simp [scanExponent, splitSign_printSign, scanDigits_printNat _ hrest, hds, hvalue,
    withSign_natAbs]

/-- The number whose sign has been read. -/
def scanUnsigned (negative : Bool) (cs : List Char) : Option (Number × List Char) := do
  let (whole, cs) ← scanWhole cs
  let (fraction, cs) ← scanFraction cs
  let (exponent, cs) ← scanExponent cs
  match fraction, exponent with
  | none, none => some (.whole negative (natOfDigits 10 whole), cs)
  | _, _ =>
    let ds := fraction.getD []
    some (.decimal negative (natOfDigits 10 (whole ++ ds)) (exponent.getD 0 - ds.length), cs)

theorem scanNumber_printSign (negative : Bool) (n : Nat) :
    scanNumber (printSign negative (printNat n rest)) =
      scanUnsigned negative (printNat n rest) := by
  cases negative with
  | true => rfl
  | false =>
    obtain ⟨d, cs, hcs, hd⟩ := printNat_eq_cons n rest
    have hminus : d ≠ '-' := by rintro rfl; cases hd
    simp only [printSign, hcs, scanNumber, Bool.false_eq_true, if_false]
    split
    · simp_all
    · rfl

/-- A number that was printed is read back, if no digit follows it. -/
theorem scanNumber_print (x : Number) (h : Follows rest) :
    scanNumber (printNumber x rest) = some (x, rest) := by
  cases x with
  | whole negative n =>
    simp [printNumber, scanNumber_printSign, scanUnsigned, scanWhole_printNat n h.noDigit,
      scanFraction_none fun c hc => (h c hc).2.1, scanExponent_none h, natOfDigits_toDigits]
  | decimal negative n scale =>
    have hletter : ∀ cs : List Char, ∀ c ∈ ('e' :: cs).head?, isDigit c = false := by
      rintro cs c ⟨⟩
      rfl
    have hpoint : ∀ cs : List Char, ∀ c ∈ ('e' :: cs).head?, c ≠ '.' := by
      rintro cs c ⟨⟩
      decide
    simp [printNumber, scanNumber_printSign, scanUnsigned, scanWhole_printNat n (hletter _),
      scanFraction_none (hpoint _), scanExponent_print scale h.noDigit, natOfDigits_toDigits]

/-- A number begins with a sign or a digit, so it is no other value. -/
theorem printNumber_eq_cons (x : Number) (rest : List Char) :
    ∃ c cs, printNumber x rest = c :: cs ∧ (c = '-' ∨ isDigit c = true) := by
  have hsigned : ∀ (negative : Bool) (n : Nat) (rest : List Char),
      ∃ c cs, printSign negative (printNat n rest) = c :: cs ∧ (c = '-' ∨ isDigit c = true) := by
    intro negative n rest
    cases negative with
    | true => exact ⟨'-', _, rfl, .inl rfl⟩
    | false =>
      obtain ⟨d, cs, hcs, hd⟩ := printNat_eq_cons n rest
      exact ⟨d, cs, by simp [printSign, hcs], .inr hd⟩
  cases x with
  | whole negative n => exact hsigned negative n rest
  | decimal negative n scale => exact hsigned negative n _

theorem length_printNat (n : Nat) (rest : List Char) : rest.length < (printNat n rest).length := by
  have hpos := Nat.length_toDigits_pos (b := 10) (n := n)
  rw [printNat, List.length_append]
  omega

theorem length_printSign (negative : Bool) (rest : List Char) :
    rest.length ≤ (printSign negative rest).length := by
  cases negative <;> simp [printSign]

theorem length_printNumber (x : Number) (rest : List Char) :
    rest.length < (printNumber x rest).length := by
  cases x with
  | whole negative n =>
    have hdigits := length_printNat n rest
    have hsign := length_printSign negative (printNat n rest)
    rw [printNumber]
    omega
  | decimal negative n scale =>
    have hscale := length_printNat scale.natAbs rest
    have hscaleSign := length_printSign (scale < 0) (printNat scale.natAbs rest)
    have hdigits := length_printNat n
      ('e' :: printSign (scale < 0) (printNat scale.natAbs rest))
    have hsign := length_printSign negative
      (printNat n ('e' :: printSign (scale < 0) (printNat scale.natAbs rest)))
    rw [List.length_cons] at hdigits
    rw [printNumber]
    omega

/-- A piece that stands for the character: itself, or a unit that is no part of a pair. -/
def Piece.IsOf (p : Piece) (c : Char) : Prop :=
  p = .char c ∨ p = .unit c.toNat ∧ c.toNat < 0x20

theorem hexValue?_hexDigit : ∀ d < 16, hexValue? (hexDigit d) = some d := by
  decide

/-- A control character without a letter of its own is read back from its two digits. -/
theorem pieces_unit (acc : List Piece) (cs : List Char) (hn : n < 0x20) :
    pieces acc ('\\' :: 'u' :: '0' :: '0' :: hexDigit (n / 16) :: hexDigit (n % 16) :: cs) =
      pieces (.unit n :: acc) cs := by
  have hzero : hexValue? '0' = some 0 := rfl
  have hvalue : natOfDigits 16 [0, 0, n / 16, n % 16] = n := by
    simp [natOfDigits]
    omega
  rw [pieces]
  simp only [hzero, hexValue?_hexDigit (n / 16) (by omega),
    hexValue?_hexDigit (n % 16) (by omega), hvalue]

/-- What a character is escaped to is read as that one character. -/
theorem pieces_escape (c : Char) :
    ∃ p : Piece, p.IsOf c ∧ ∀ acc cs, pieces acc (escape c ++ cs) = pieces (p :: acc) cs := by
  unfold escape
  split
  -- Only the last case has more than one character to look at.
  case h_8 hquote hslash _ _ _ _ _ =>
    by_cases hcontrol : c.toNat < 0x20
    · refine ⟨.unit c.toNat, .inr ⟨rfl, hcontrol⟩, fun acc cs => ?_⟩
      rw [if_pos hcontrol]
      exact pieces_unit acc cs hcontrol
    · refine ⟨.char c, .inl rfl, fun acc cs => ?_⟩
      rw [if_neg hcontrol, List.singleton_append, pieces, if_neg hcontrol]
      · exact hquote
      · exact fun _ _ _ _ _ h => absurd h hslash
      · exact fun _ _ h => absurd h hslash
  all_goals exact ⟨.char _, .inl rfl, fun _ _ => rfl⟩

theorem pieces_printChars (acc : List Piece) (rest cs : List Char) :
    ∃ ps, List.Forall₂ Piece.IsOf ps cs ∧
      pieces acc (printChars rest cs) = some (acc.reverse ++ ps, rest) := by
  induction cs generalizing acc with
  | nil => exact ⟨[], .nil, by simp [printChars, pieces]⟩
  | cons c cs ih =>
    obtain ⟨p, hp, hstep⟩ := pieces_escape c
    obtain ⟨ps, hps, hrest⟩ := ih (p :: acc)
    exact ⟨p :: ps, .cons hp hps, by rw [printChars, hstep, hrest]; simp⟩

/-- A unit below the surrogates makes a character alone. -/
theorem piecesText_unit (acc : List Char) (ps : List Piece) (hlow : c.toNat < 0x20) :
    piecesText acc (.unit c.toNat :: ps) = piecesText (c :: acc) ps := by
  have hlead : isLead c.toNat = false := by
    simp [isLead]
    omega
  have htrail : isTrail c.toNat = false := by
    simp [isTrail]
    omega
  rcases ps with _ | ⟨_ | _, _⟩ <;> simp [piecesText, hlead, htrail]

theorem piecesText_isOf {ps : List Piece} {cs : List Char} (h : List.Forall₂ Piece.IsOf ps cs)
    (acc : List Char) : piecesText acc ps = some (String.ofList (acc.reverse ++ cs)) := by
  induction h generalizing acc with
  | nil => simp [piecesText]
  | @cons p c ps cs hp _ ih =>
    have hnext := ih (c :: acc)
    rw [List.reverse_cons, List.append_assoc, List.singleton_append] at hnext
    rcases hp with rfl | ⟨rfl, hlow⟩
    · rw [piecesText, hnext]
    · rw [piecesText_unit acc ps hlow, hnext]

/-- A string that was printed is read back, whatever its characters are. -/
theorem scanString_print (s : Option String) (rest : List Char) :
    ∃ cs, printString s rest = '"' :: cs ∧ scanString cs = some (s, rest) := by
  cases s with
  | none => exact ⟨"\\ud800\"".toList ++ rest, rfl, rfl⟩
  | some s =>
    obtain ⟨ps, hps, hpieces⟩ := pieces_printChars [] rest s.toList
    refine ⟨printChars rest s.toList, rfl, ?_⟩
    rw [scanString, hpieces]
    simp [piecesText_isOf hps]

theorem length_printChars (cs rest : List Char) : rest.length < (printChars rest cs).length := by
  induction cs with
  | nil => exact Nat.lt_succ_self _
  | cons c cs ih =>
    rw [printChars, List.length_append]
    omega

theorem length_printString (s : Option String) (rest : List Char) :
    rest.length < (printString s rest).length := by
  cases s with
  | none =>
    have hlength : (printString none rest).length = rest.length + 8 := rfl
    omega
  | some s => exact Nat.lt_succ_of_lt (length_printChars s.toList rest)

end TrapFacts.Json
