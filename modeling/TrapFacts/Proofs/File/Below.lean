import TrapFacts.Proofs.File.Placing

/-! Whatever a unit is called, its trap stays below the output directory. -/

namespace TrapFacts

variable {cs piece : List Char} {n : String}

namespace Path

/-- What stands between the slashes of a text, but for nothing at all, `.` and `..`. -/
def normalParts (s : String) : List String :=
  ((s.toList.splitOn '/').map String.ofList).filter fun n => n ≠ "" ∧ n ≠ "." ∧ n ≠ ".."

theorem pieces_eq_splitOn (cs : List Char) : pieces cs = cs.splitOn '/' := by
  induction cs with
  | nil => rfl
  | cons c cs ih =>
    have hsplit := List.splitOnP_cons_eq_if_modifyHead (p := (· == '/')) c cs
    obtain ⟨piece, rest, hpieces⟩ := List.exists_cons_of_ne_nil (pieces_ne_nil cs)
    have hcs : cs.splitOnP (· == '/') = piece :: rest := ih.symm.trans hpieces
    rw [List.splitOn, hsplit, hcs, pieces, hpieces]
    by_cases hc : c = '/'
    · simp [hc]
    · simp [hc]

theorem names_iff (piece : List Char) :
    Names piece ↔ String.ofList piece ≠ "" ∧ String.ofList piece ≠ "." := by
  have hnil : String.ofList piece = "" ↔ piece = [] := by
    rw [show "" = String.ofList [] from rfl, String.ofList_inj]
  have hdot : String.ofList piece = "." ↔ piece = ['.'] := by
    rw [show "." = String.ofList ['.'] from rfl, String.ofList_inj]
  rw [Names, ne_eq, ne_eq, ne_eq, ne_eq, hnil, hdot]

theorem properNames_eq (s : String) : properNames s = normalParts s := by
  rw [properNames, stepNames, names_stepsOf, pieces_eq_splitOn, normalParts, List.filter_map,
    List.filter_map, List.filter_filter]
  apply congrArg
  apply List.filter_congr
  intro piece _
  rw [Bool.eq_iff_iff]
  simp only [Function.comp, Bool.and_eq_true, decide_eq_true_eq, names_iff]
  constructor
  · rintro ⟨hup, hnil, hdot⟩
    exact ⟨hnil, hdot, hup⟩
  · rintro ⟨hnil, hdot, hup⟩
    exact ⟨hup, hnil, hdot⟩

end Path

namespace Layout

/-- The steps of a unit's path are the normal parts of its name, or one that stands in for them. -/
theorem relativeSteps_eq (name : String) : relativeSteps name =
    if Path.normalParts name = [] then ["unnamed"] else Path.normalParts name := by
  rw [relativeSteps, Path.properNames_eq]
  cases Path.normalParts name with
  | nil => rfl
  | cons n rest => simp

theorem Proper.normal (h : Proper n) : n ≠ "" ∧ n ≠ "." ∧ n ≠ ".." ∧ '/' ∉ n.toList := by
  obtain ⟨hslash, ⟨hnil, hdot⟩, hup⟩ := h
  refine ⟨?_, ?_, hup, hslash⟩
  · rintro rfl
    exact hnil rfl
  · rintro rfl
    exact hdot rfl

/-- A trap's path is that of the output directory and steps downwards: those of the unit's name, or
one if it has none, the last with the ending of traps. Read again, the text has these steps. -/
theorem pathFor_below (l : Layout) (name : String) : ∃ above last,
    (if Path.normalParts name = [] then ["unnamed"] else Path.normalParts name) =
      above ++ [last] ∧
    let steps := above ++ [last ++ "." ++ l.compression.extension]
    l.pathFor name = Path.below l.directory ("/".intercalate steps) ∧
      (∀ n ∈ steps, n ≠ "" ∧ n ≠ "." ∧ n ≠ ".." ∧ '/' ∉ n.toList) ∧
      ("/".intercalate steps).toList.splitOn '/' = steps.map String.toList ∧
      (Path.ofString (l.pathFor name)).names = (Path.ofString l.directory).names ++ steps ∧
      (Path.ofString (l.pathFor name)).isAbsolute = (Path.ofString l.directory).isAbsolute := by
  obtain ⟨above, last, hsteps, htrap⟩ := l.exists_trapNames name
  rw [relativeSteps_eq] at hsteps
  rw [← String.append_assoc] at htrap
  refine ⟨above, last, hsteps, ?_⟩
  intro steps
  have hpieces := l.pieces_trapNames name
  have hnames := l.names_pathFor name
  rw [Path.pieces_eq_splitOn, htrap] at hpieces
  rw [htrap] at hnames
  have hproper : ∀ n ∈ steps, Proper n := by
    intro n hn
    apply mem_trapNames l name
    rw [htrap]
    exact hn
  refine ⟨?_, ?_, hpieces, hnames, l.isAbsolute_pathFor name⟩
  · have hrelative := l.head?_trapNames name
    have hpath := l.pathFor_eq name
    rw [htrap] at hrelative hpath
    rw [hpath, Path.below, if_neg hrelative]
  · intro n hn
    exact (hproper n hn).normal

/-- A name that leads to the root and upwards. -/
example : Layout.pathFor { directory := "out/" } "/../a//b/./..c/" = "out/a/b/..c.trap.gz" := by
  decide +kernel

end Layout

end TrapFacts
