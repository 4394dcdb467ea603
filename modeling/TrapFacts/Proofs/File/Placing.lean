import Mathlib.Data.List.Infix
import TrapFacts.File.Tree
import TrapFacts.Layout

/-! The names that lead to a trap: those of the output directory and those of the unit. -/

namespace TrapFacts

variable {cs ds piece : List Char} {ps : List (List Char)} {name name' : String} {s : String}

namespace Path

def Names (piece : List Char) : Prop :=
  piece ≠ [] ∧ piece ≠ ['.']

instance : DecidablePred Names := fun _ => inferInstanceAs (Decidable (_ ∧ _))

theorem names_stepsOf (ahead : Nat) (ps : List (List Char)) :
    (stepsOf ahead ps).map (·.name) = (ps.filter (Names ·)).map String.ofList := by
  induction ps generalizing ahead with
  | nil => rfl
  | cons piece ps ih =>
    rw [stepsOf]
    by_cases h : Names piece
    · have hnot : ¬ (piece = [] ∨ piece = ['.']) := by
        rintro (heq | heq)
        · exact h.1 heq
        · exact h.2 heq
      simp [hnot, h, ih]
    · have hor : piece = [] ∨ piece = ['.'] := by
        by_contra hnot
        exact h ⟨fun heq => hnot (.inl heq), fun heq => hnot (.inr heq)⟩
      simp [hor, h, ih]

theorem names_ofString (s : String) :
    (ofString s).names = ((pieces s.toList).filter (Names ·)).map String.ofList :=
  names_stepsOf 0 _

theorem pieces_ne_nil (cs : List Char) : pieces cs ≠ [] := by
  cases cs with
  | nil => simp [pieces]
  | cons c cs =>
    rw [pieces]
    split
    · simp
    · split <;> simp

theorem pieces_append_slash (cs ds : List Char) :
    pieces (cs ++ '/' :: ds) = pieces cs ++ pieces ds := by
  induction cs with
  | nil => simp [pieces]
  | cons c cs ih =>
    rw [List.cons_append, pieces, pieces, ih]
    by_cases hc : c = '/'
    · simp [hc]
    · rw [if_neg hc, if_neg hc]
      obtain ⟨p, ps, hps⟩ := List.exists_cons_of_ne_nil (pieces_ne_nil cs)
      simp [hps]

theorem pieces_of_notMem (h : '/' ∉ cs) : pieces cs = [cs] := by
  induction cs with
  | nil => rfl
  | cons c cs ih =>
    have hc : c ≠ '/' := fun heq => h (heq ▸ List.mem_cons_self)
    rw [pieces, if_neg hc, ih fun hmem => h (List.mem_cons_of_mem _ hmem)]

theorem slash_notMem (h : piece ∈ pieces cs) : '/' ∉ piece := by
  induction cs generalizing piece with
  | nil =>
    rw [List.mem_singleton.1 h]
    exact List.not_mem_nil
  | cons c cs ih =>
    rw [pieces] at h
    obtain ⟨p, ps, hps⟩ := List.exists_cons_of_ne_nil (pieces_ne_nil cs)
    rw [hps] at h ih
    by_cases hc : c = '/'
    · rw [if_pos hc] at h
      rcases List.mem_cons.1 h with rfl | h
      · exact List.not_mem_nil
      · exact ih h
    · rw [if_neg hc] at h
      rcases List.mem_cons.1 h with rfl | h
      · intro hmem
        rcases List.mem_cons.1 hmem with heq | hmem
        · exact hc heq.symm
        · exact ih List.mem_cons_self hmem
      · exact ih (List.mem_cons_of_mem _ h)

theorem pieces_intercalate {names : List String} (hne : names ≠ [])
    (h : ∀ n ∈ names, '/' ∉ n.toList) :
    pieces ("/".intercalate names).toList = names.map String.toList := by
  induction names with
  | nil => exact absurd rfl hne
  | cons n names ih =>
    cases names with
    | nil => simpa using pieces_of_notMem (h n List.mem_cons_self)
    | cons n' names =>
      have hrest := ih (by simp) fun m hm => h m (List.mem_cons_of_mem _ hm)
      have hsplit : ("/".intercalate (n :: n' :: names)).toList =
          n.toList ++ '/' :: ("/".intercalate (n' :: names)).toList := by
        simp [String.intercalate_cons_cons]
      rw [hsplit, pieces_append_slash, hrest, pieces_of_notMem (h n List.mem_cons_self)]
      rfl

theorem toList_lead (directory : String) :
    (lead directory).toList = directory.toList ∧
        (directory.toList = [] ∨ ∃ cs, directory.toList = cs ++ ['/']) ∨
      (lead directory).toList = directory.toList ++ ['/'] ∧ directory.toList ≠ [] := by
  by_cases hempty : directory.toList = []
  · left
    have hlead : lead directory = directory := by simp_all [lead]
    exact ⟨congrArg _ hlead, .inl hempty⟩
  · by_cases hlast : directory.toList.getLast? = some '/'
    · left
      have hlead : lead directory = directory := by simp [lead, hlast]
      exact ⟨congrArg _ hlead, .inr (List.getLast?_eq_some_iff.1 hlast)⟩
    · right
      have hlead : lead directory = directory ++ "/" := by simp_all [lead]
      exact ⟨by rw [hlead, String.toList_append]; rfl, hempty⟩

/-- What stands behind the text of a directory is behind its names. -/
theorem pieces_lead (directory s : String) : ∃ front,
    pieces (lead directory ++ s).toList = front ++ pieces s.toList ∧
      front.filter (Names ·) = (pieces directory.toList).filter (Names ·) := by
  rw [String.toList_append]
  rcases toList_lead directory with ⟨hlead, hempty | ⟨cs, hcs⟩⟩ | ⟨hlead, -⟩
  · refine ⟨[], by rw [hlead, hempty]; rfl, ?_⟩
    rw [hempty]
    decide
  · refine ⟨pieces cs, by rw [hlead, hcs, List.append_assoc, List.singleton_append,
      pieces_append_slash], ?_⟩
    rw [hcs, pieces_append_slash, List.filter_append]
    simp [pieces, Names]
  · exact ⟨pieces directory.toList, by rw [hlead, List.append_assoc, List.singleton_append,
      pieces_append_slash], rfl⟩

/-- A path below a directory takes the steps of the directory first. -/
theorem names_lead (directory s : String) :
    (ofString (lead directory ++ s)).names = (ofString directory).names ++ (ofString s).names := by
  obtain ⟨front, hpieces, hfront⟩ := pieces_lead directory s
  rw [names_ofString, hpieces, List.filter_append, hfront, List.map_append, names_ofString,
    names_ofString]

theorem isAbsolute_lead (directory : String) (h : s.toList.head? ≠ some '/') :
    (ofString (lead directory ++ s)).isAbsolute = (ofString directory).isAbsolute := by
  have hhead : (lead directory ++ s).toList.head? = some '/' ↔
      directory.toList.head? = some '/' := by
    rw [String.toList_append]
    rcases toList_lead directory with ⟨hlead, hempty | ⟨cs, hcs⟩⟩ | ⟨hlead, hne⟩
    · rw [hlead, hempty]
      simpa using h
    · rw [hlead, hcs]
      cases cs <;> simp
    · rw [hlead]
      obtain ⟨c, cs, hcs⟩ := List.exists_cons_of_ne_nil hne
      simp [hcs]
  simp only [ofString, hhead]

theorem ending_ofString {front : List (List Char)} (h : pieces s.toList = front ++ [piece])
    (hp : Names piece) : (ofString s).ending = .name := by
  obtain ⟨hnil, hdot⟩ := hp
  have hsqueeze : squeeze (piece :: front.reverse) = piece :: front.reverse := by
    rw [squeeze]
    rintro rest heq
    exact absurd (List.cons.inj heq).1 hnil
  simp only [ofString, h, List.reverse_append, List.reverse_singleton, List.singleton_append,
    hsqueeze]
  unfold endingOf
  split
  · next heq => exact absurd (List.cons.inj heq).1 hdot
  · next heq => exact absurd (List.cons.inj heq).1 hnil
  · next heq => exact absurd (List.cons.inj heq).1 hnil
  · rfl

end Path

namespace Layout

variable {l : Layout} {n : String} {above : List String} {last : String}

/-- The names of a unit's trap below the output directory. -/
def trapNames (l : Layout) (name : String) : List String :=
  (relativeSteps name).dropLast ++
    [(relativeSteps name).getLastD "" ++ "." ++ l.compression.extension]

/-- A name that means something, and nothing above. -/
def Proper (n : String) : Prop :=
  '/' ∉ n.toList ∧ Path.Names n.toList ∧ n ≠ ".."

theorem mem_relativeSteps (name : String) (h : n ∈ relativeSteps name) : Proper n := by
  unfold relativeSteps at h
  split at h
  · obtain rfl := List.mem_singleton.1 h
    unfold Proper
    decide
  · next names hnames =>
    obtain ⟨hmem, hup⟩ := List.mem_filter.1 h
    rw [Path.stepNames, Path.names_stepsOf] at hmem
    obtain ⟨piece, hpiece, rfl⟩ := List.mem_map.1 hmem
    obtain ⟨hpiece, hnames⟩ := List.mem_filter.1 hpiece
    refine ⟨?_, ?_, by simpa using hup⟩
    · simpa using Path.slash_notMem hpiece
    · simpa using hnames

theorem relativeSteps_ne_nil (name : String) : relativeSteps name ≠ [] := by
  unfold relativeSteps
  split
  · exact List.cons_ne_nil _ _
  · assumption

theorem intercalate_append (above : List String) (last s : String) :
    "/".intercalate (above ++ [last]) ++ s = "/".intercalate (above ++ [last ++ s]) := by
  induction above with
  | nil => simp
  | cons n above ih =>
    cases above with
    | nil => simp [String.intercalate_cons_cons, String.append_assoc]
    | cons m above =>
      simp only [List.cons_append, String.intercalate_cons_cons, String.append_assoc] at ih ⊢
      rw [ih]

/-- The last name of a trap ends as all of its kind. -/
theorem exists_trapNames (l : Layout) (name : String) : ∃ above last,
    relativeSteps name = above ++ [last] ∧
      l.trapNames name = above ++ [last ++ ("." ++ l.compression.extension)] := by
  rcases List.eq_nil_or_concat (relativeSteps name) with hnil | ⟨above, last, hsteps⟩
  · exact absurd hnil (relativeSteps_ne_nil name)
  · rw [List.concat_eq_append] at hsteps
    exact ⟨above, last, hsteps, by simp [trapNames, hsteps, String.append_assoc]⟩

/-- The path of a trap file starts at the directory of the run. -/
theorem pathFor_eq (l : Layout) (name : String) :
    l.pathFor name = Path.lead l.directory ++ "/".intercalate (l.trapNames name) := by
  obtain ⟨above, last, hsteps, htrap⟩ := l.exists_trapNames name
  rw [pathFor, htrap, hsteps, ← intercalate_append]
  simp only [String.append_assoc]

theorem letter_mem_extension (c : Compression) (last : String) :
    'r' ∈ (last ++ ("." ++ c.extension)).toList := by
  cases c <;> simp [Compression.extension]

/-- The steps to a trap file are proper names. -/
theorem mem_trapNames (l : Layout) (name : String) (h : n ∈ l.trapNames name) : Proper n := by
  obtain ⟨above, last, hsteps, htrap⟩ := l.exists_trapNames name
  rw [htrap] at h
  rcases List.mem_append.1 h with habove | hlast
  · exact mem_relativeSteps name (hsteps ▸ List.mem_append_left _ habove)
  · obtain rfl := List.mem_singleton.1 hlast
    obtain ⟨hslash, -, -⟩ : Proper last := mem_relativeSteps name (by simp [hsteps])
    have hletter := letter_mem_extension l.compression last
    refine ⟨?_, ⟨?_, ?_⟩, ?_⟩
    · have hext : '/' ∉ l.compression.extension.toList := by
        cases l.compression <;> decide
      simp [hslash, hext]
    · intro hnil
      rw [hnil] at hletter
      cases hletter
    · intro hdot
      rw [hdot] at hletter
      exact absurd hletter (by decide)
    · intro hup
      rw [hup] at hletter
      exact absurd hletter (by decide)

/-- No trap has the name of a temporary file. -/
theorem temporaryName_ne (k : Nat) (last : String) (c : Compression) :
    FileTree.temporaryName k ≠ last ++ ("." ++ c.extension) := by
  intro heq
  have hletter := letter_mem_extension c last
  have hdigit : 'r' ∈ Nat.toDigits 10 k := by
    rw [← heq] at hletter
    simpa [FileTree.temporaryName] using hletter
  exact absurd (Nat.isDigit_of_mem_toDigits (by decide) (by decide) hdigit) (by decide)

theorem pieces_trapNames (l : Layout) (name : String) :
    Path.pieces ("/".intercalate (l.trapNames name)).toList =
      (l.trapNames name).map String.toList := by
  apply Path.pieces_intercalate
  · obtain ⟨above, last, -, htrap⟩ := l.exists_trapNames name
    simp [htrap]
  · exact fun n hn => (mem_trapNames l name hn).1

/-- The steps of a trap file's path are those of the directory and then those of the unit. -/
theorem names_pathFor (l : Layout) (name : String) :
    (Path.ofString (l.pathFor name)).names =
      (Path.ofString l.directory).names ++ l.trapNames name := by
  have hnames : ((l.trapNames name).map String.toList).filter (Path.Names ·) =
      (l.trapNames name).map String.toList := by
    apply List.filter_eq_self.2
    intro piece hpiece
    obtain ⟨n, hn, rfl⟩ := List.mem_map.1 hpiece
    simpa using (mem_trapNames l name hn).2.1
  have hrelative : (Path.ofString ("/".intercalate (l.trapNames name))).names =
      l.trapNames name := by
    rw [Path.names_ofString, pieces_trapNames, hnames, List.map_map]
    simp
  rw [pathFor_eq, Path.names_lead, hrelative]

theorem ending_pathFor (l : Layout) (name : String) :
    (Path.ofString (l.pathFor name)).ending = .name := by
  obtain ⟨above, last, -, htrap⟩ := l.exists_trapNames name
  obtain ⟨front, hpieces, -⟩ :=
    Path.pieces_lead l.directory ("/".intercalate (l.trapNames name))
  obtain ⟨-, hnames, -⟩ : Proper (last ++ ("." ++ l.compression.extension)) :=
    mem_trapNames l name (by simp [htrap])
  rw [← pathFor_eq, pieces_trapNames, htrap, List.map_append, ← List.append_assoc,
    List.map_singleton] at hpieces
  exact Path.ending_ofString hpieces hnames

/-- The text behind the output directory does not start at the root. -/
theorem head?_trapNames (l : Layout) (name : String) :
    ("/".intercalate (l.trapNames name)).toList.head? ≠ some '/' := by
  obtain ⟨n, rest, hrest⟩ : ∃ n rest, l.trapNames name = n :: rest := by
    apply List.exists_cons_of_ne_nil
    simp [trapNames]
  intro hhead
  have hpieces := l.pieces_trapNames name
  obtain ⟨cs, hcs⟩ := List.head?_eq_some_iff.1 hhead
  rw [hcs, Path.pieces, if_pos rfl, hrest, List.map_cons] at hpieces
  exact (mem_trapNames l name (by simp [hrest])).2.1.1 (List.cons.inj hpieces).1.symm

theorem isAbsolute_pathFor (l : Layout) (name : String) :
    (Path.ofString (l.pathFor name)).isAbsolute = (Path.ofString l.directory).isAbsolute := by
  rw [pathFor_eq]
  apply Path.isAbsolute_lead
  exact l.head?_trapNames name

end Layout

end TrapFacts
