import TrapFacts.Proofs.File.Walking

/-! Which directories a run makes, and what they cannot get in the way of. -/

namespace TrapFacts.FileTree

variable {t t' t'' : FileTree} {p q base : Place} {name : String} {names ns ms : List String}
  {path way : Path} {e : IoError} {c : Content}

theorem kind?_root (t : FileTree) : t.kind? [] ≠ none := by
  simp [kind?, at?, FileNode.find?]

/-- Names that lead to a place where nothing is have passed the directory above it. -/
theorem track_parent (h : t.track p names = .ok q) (hp : t.kind? p ≠ none)
    (hq : t.kind? q = none) : ∃ name above, q = name :: above ∧
      t.kind? above = some .directory := by
  induction names generalizing p with
  | nil =>
    obtain rfl := Except.ok.inj h
    exact absurd hq hp
  | cons name names ih =>
    obtain ⟨hdir, hrest⟩ := track_cons_ok h
    by_cases hup : name = ".."
    · rw [if_pos hup] at hrest
      apply ih hrest
      cases p with
      | nil => exact hp
      | cons n p =>
        rw [List.tail_cons, kind?_parent hdir]
        exact Option.some_ne_none _
    · rw [if_neg hup] at hrest
      by_cases hchild : t.kind? (name :: p) = none
      · by_cases hnil : names = []
        · subst hnil
          exact ⟨name, p, (Except.ok.inj hrest.2).symm, hdir⟩
        · have hdirectory := directory_of_track hrest.2 hnil
          rw [hchild] at hdirectory
          cases hdirectory
      · exact ih hrest.2 hchild

/-- Where nothing is, a directory is right above it. -/
theorem LeadsTo.parent (h : t.LeadsTo path p) (hp : t.kind? p = none) : ∃ name above,
    p = name :: above ∧ t.kind? above = some .directory := by
  obtain ⟨-, hempty, htrack, hending⟩ := leadsTo_iff.1 h
  have hstart : t.kind? (t.origin path) ≠ none := by
    by_cases hnames : path.names = []
    · have hsteps : path.steps = [] := List.map_eq_nil_iff.1 hnames
      have hname : path.ending = .name := by
        apply hending.resolve_right
        rw [hp]
        exact (Option.some_ne_none _).symm
      have habsolute : path.isAbsolute = true := by
        simpa [Path.isEmpty, hsteps, hname] using hempty
      rw [origin, if_pos habsolute]
      exact t.kind?_root
    · rw [directory_of_track htrack hnames]
      exact Option.some_ne_none _
  exact track_parent htrack hstart hp

/-- Directories were made where the first names of a path lead, and only where nothing was. -/
structure Made (t : FileTree) (way : Path) (t' : FileTree) : Prop where
  workingDirectory : t'.workingDirectory = t.workingDirectory
  kind : ∀ p, t'.kind? p = t.kind? p ∨
    t.kind? p = none ∧ t'.kind? p = some .directory ∧
      ∃ ns ms, way.names = ns ++ ms ∧ t'.track (t'.origin way) ns = .ok p

namespace Made

theorem refl (t : FileTree) (way : Path) : Made t way t :=
  ⟨rfl, fun _ => .inl rfl⟩

/-- Making directories takes nothing away. -/
theorem retains (h : Made t way t') : Retains t t' where
  workingDirectory := h.workingDirectory
  directory p hp := by
    rcases h.kind p with heq | ⟨hnone, -⟩
    · rw [heq, hp]
    · rw [hnone] at hp
      cases hp

theorem file (h : Made t way t') : t'.kind? p = some (.file c) ↔ t.kind? p = some (.file c) := by
  rcases h.kind p with heq | ⟨hnone, hdir, -⟩
  · rw [heq]
  · rw [hnone, hdir]
    simp

theorem trans (h : Made t way t') (h' : Made t' way t'') : Made t way t'' where
  workingDirectory := h'.workingDirectory.trans h.workingDirectory
  kind p := by
    rcases h'.kind p with heq' | ⟨hnone', hmade⟩
    · rw [heq']
      rcases h.kind p with heq | ⟨hnone, hdir, ns, ms, hway, htrack⟩
      · exact .inl heq
      · refine .inr ⟨hnone, hdir, ns, ms, hway, ?_⟩
        rw [h'.retains.origin]
        exact h'.retains.track htrack
    · rcases h.kind p with heq | ⟨-, hdir, -⟩
      · exact .inr ⟨heq.symm.trans hnone', hmade⟩
      · rw [hnone'] at hdir
        cases hdir

end Made

/-- A directory is made where its path leads to nothing. -/
theorem makeDirectory_ok (h : t.makeDirectory path = .ok t') : ∃ p,
    t.LeadsTo path p ∧ t.kind? p = none ∧ t' = t.put p (.directory []) := by
  unfold makeDirectory at h
  split at h
  · cases h
  · next s hs =>
    split at h
    · cases h
    · next hnode =>
      refine ⟨s.place, ⟨s, hs, rfl⟩, ?_, (Except.ok.inj h).symm⟩
      rw [kind?_none, ← node?_spot, ← (resolve_ok hs).1]
      simpa using hnode

/-- A directory that is made is a new one on the way. -/
theorem makeDirectory_made {n : Nat} (h : t.makeDirectory (way.take n) = .ok t') :
    Made t way t' := by
  obtain ⟨p, hp, hnone, rfl⟩ := makeDirectory_ok h
  obtain ⟨name, above, rfl, habove⟩ := hp.parent hnone
  have hkind (q : Place) : (t.put (name :: above) (.directory [])).kind? q =
      if q = name :: above then some .directory else t.kind? q := by
    refine kind?_put habove ?_ fun _ _ => rfl
    rw [hnone]
    exact (Option.some_ne_none _).symm
  have hretains : Retains t (t.put (name :: above) (.directory [])) := by
    refine ⟨rfl, fun q hq => ?_⟩
    rw [hkind]
    split
    · rfl
    · exact hq
  refine ⟨rfl, fun q => ?_⟩
  by_cases hq : q = name :: above
  · subst hq
    refine .inr ⟨hnone, by rw [hkind, if_pos rfl], (way.take n).names, way.names.drop n, ?_, ?_⟩
    · have htake : (way.take n).names = way.names.take n := List.map_take
      rw [htake, List.take_append_drop]
    · exact (leadsTo_iff.1 (hretains.leadsTo hp)).2.2.1
  · exact .inl (by rw [hkind, if_neg hq])

theorem orExisting_snd (t : FileTree) (path : Path) (r : Except IoError FileTree) :
    (t.orExisting path r).2 = r.toOption.getD t := by
  cases r with
  | ok t' => rfl
  | error e =>
    rw [orExisting]
    split <;> rfl

/-- Whether all directories of a path can be made or not, nothing else changes. -/
theorem makeDirectories_made (t : FileTree) (way : Path) (n : Nat) :
    Made t way (t.makeDirectories way n).2 := by
  have hmake (u : FileTree) (n : Nat) :
      Made u way (u.orExisting (way.take n) (u.makeDirectory (way.take n))).2 := by
    rw [orExisting_snd]
    cases hu : u.makeDirectory (way.take n) with
    | error e => exact .refl u way
    | ok u' => exact makeDirectory_made hu
  induction n with
  | zero => exact .refl t way
  | succ n ih =>
    unfold makeDirectories
    simp only
    split
    · split
      · next heq => rwa [heq] at ih
      · next heq =>
        rw [heq] at ih
        exact ih.trans (hmake _ _)
    · exact hmake t (n + 1)

/-- Every step of a path that leads upwards is behind what is there already. -/
def Settles (t : FileTree) (path : Path) : Prop :=
  ∀ ns ms, path.names = ns ++ ".." :: ms → ∃ s, (t.start path).walk (ns ++ [".."]) = .ok s

theorem settles_of_notMem (h : ".." ∉ path.names) : t.Settles path := by
  intro ns ms hnames
  rw [hnames] at h
  exact absurd (List.mem_append_right ns List.mem_cons_self) h

theorem Settles.track (h : t.Settles path) (hnames : path.names = ns ++ ".." :: ms) :
    ∃ p, t.track (t.origin path) (ns ++ [".."]) = .ok p := by
  obtain ⟨s, hs⟩ := h ns ms hnames
  rw [walk_start] at hs
  cases htrack : t.track (t.origin path) (ns ++ [".."]) with
  | error e =>
    rw [htrack] at hs
    cases hs
  | ok p => exact ⟨p, rfl⟩

/-- What a path goes up from is there. -/
theorem Settles.reaches (h : t.Settles path) (hnames : path.names = ns ++ ms) (hup : ".." ∈ ms) :
    ∃ q, t.track (t.origin path) ns = .ok q ∧ t.kind? q = some .directory := by
  obtain ⟨front, back, rfl⟩ := List.append_of_mem hup
  rw [← List.append_assoc] at hnames
  obtain ⟨p, hp⟩ := h.track hnames
  rw [List.append_assoc] at hp
  obtain ⟨q, hq, hrest⟩ := track_append_ok.1 hp
  exact ⟨q, hq, directory_of_track hrest (by simp)⟩

/-- A path that settles does so in every tree that retains what was there. -/
theorem Retains.settles (h : Retains t t') (hs : t.Settles path) : t'.Settles path := by
  intro ns ms hnames
  obtain ⟨p, hp⟩ := hs.track hnames
  rw [walk_start, h.origin, h.track hp]
  exact ⟨_, rfl⟩

/-- A path that settles goes on downwards only from some place on that it reaches already. -/
theorem Settles.split (h : t.Settles path) : ∃ ns ms base,
    path.names = ns ++ ms ∧ ".." ∉ ms ∧ t.track (t.origin path) ns = .ok base := by
  by_cases hup : ".." ∈ path.names
  · -- The last step upwards is the first one from behind.
    obtain ⟨as, bs, hreverse, has⟩ := List.eq_append_cons_of_mem (List.mem_reverse.2 hup)
    have hnames : path.names = bs.reverse ++ ".." :: as.reverse := by
      rw [← path.names.reverse_reverse, hreverse]
      simp
    obtain ⟨base, hbase⟩ := h.track hnames
    refine ⟨_, as.reverse, base, ?_, fun hmem => has (List.mem_reverse.1 hmem), hbase⟩
    rw [hnames, List.append_assoc, List.singleton_append]
  · exact ⟨[], path.names, t.origin path, rfl, hup, rfl⟩

/-- Names lead down to what is there. -/
theorem track_down (h : t'.track p names = .ok q) (hup : ".." ∉ names) (hq : t.kind? q ≠ none) :
    t.track p names = .ok q := by
  induction names generalizing p with
  | nil => exact h
  | cons name names ih =>
    have hname : name ≠ ".." := fun heq => hup (heq ▸ List.mem_cons_self)
    have hrest : ".." ∉ names := fun hmem => hup (List.mem_cons_of_mem _ hmem)
    obtain ⟨-, htrack⟩ := track_cons_ok h
    rw [if_neg hname] at htrack
    have hdir : t.kind? p = some .directory := by
      by_contra hne
      rw [track_proper htrack.2 hrest, kind?_below hne] at hq
      exact hq rfl
    rw [track, hdir]
    simp only [if_neg hname, if_neg (show ¬ longestName < name.utf8ByteSize by omega),
      ih htrack.2 hrest]

/-- What is there already is found there already. -/
theorem Settles.leadsTo (h : t.Settles path) (hr : Retains t t') (hp : t'.LeadsTo path p)
    (hname : path.ending = .name) (hkind : t.kind? p ≠ none) : t.LeadsTo path p := by
  obtain ⟨hlong, hempty, htrack, -⟩ := leadsTo_iff.1 hp
  obtain ⟨ns, ms, base, hnames, hup, hbase⟩ := h.split
  refine leadsTo_iff.2 ⟨hlong, hempty, ?_, .inl hname⟩
  rw [hnames, hr.origin] at htrack
  obtain ⟨base', hbase', hdown⟩ := track_append_ok.1 htrack
  obtain rfl := Except.ok.inj ((hr.track hbase).symm.trans hbase')
  rw [hnames]
  exact track_append_ok.2 ⟨base, hbase, track_down hdown hup hkind⟩

/-- No directory is made at a place, or below it, that a longer path leads to in the end. -/
theorem Made.unchanged (h : Made t way t') (hr : Retains t' t'') (hs : t.Settles path)
    (hway : ∃ name names, path.names = way.names ++ name :: names)
    (ho : ∀ u : FileTree, u.origin path = u.origin way) (hp : t''.LeadsTo path p) (above : Place) :
    t'.kind? (above ++ p) = t.kind? (above ++ p) := by
  rcases h.kind (above ++ p) with heq | ⟨hnone, -, ns, ms, hsplit, hmade⟩
  · exact heq
  exfalso
  obtain ⟨name, names, hlonger⟩ := hway
  obtain ⟨-, -, htrack, -⟩ := leadsTo_iff.1 hp
  have hnames : path.names = ns ++ (ms ++ name :: names) := by
    rw [hlonger, hsplit, List.append_assoc]
  rw [hnames, ho, hr.origin] at htrack
  obtain ⟨q, hq, hrest⟩ := track_append_ok.1 htrack
  rw [h.retains.origin] at hq hmade
  obtain rfl := Except.ok.inj ((hr.track hmade).symm.trans hq)
  by_cases hup : ".." ∈ ms ++ name :: names
  · -- From here the path leads upwards again, so the place was there before.
    obtain ⟨q, hq, hdir⟩ := hs.reaches hnames hup
    rw [ho] at hq
    obtain rfl := Except.ok.inj ((h.retains.track hq).symm.trans hmade)
    rw [hnone] at hdir
    cases hdir
  · have hlength := congrArg List.length (track_proper hrest hup)
    simp only [List.length_append, List.length_reverse, List.length_cons] at hlength
    omega

end TrapFacts.FileTree
