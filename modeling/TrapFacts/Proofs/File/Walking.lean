import TrapFacts.Proofs.File.Kinds

/-! Where paths lead, and that they lead there still when a tree has got more directories. -/

namespace TrapFacts

namespace FileTree

variable {t t' t'' : FileTree} {p q : Place} {name : String} {names ns ms : List String}
  {path : Path} {node : FileNode} {c : Content}

@[simp] theorem place_spot (t : FileTree) (p : Place) : (t.spot p).place = p := by
  induction p with
  | nil => rfl
  | cons name p ih => rw [spot, Spot.place, ih]

@[simp] theorem node?_spot (t : FileTree) (p : Place) : (t.spot p).node? = t.at? p := by
  cases p <;> rfl

theorem parent_spot (t : FileTree) (p : Place) : (t.spot p).parent = t.spot p.tail := by
  cases p <;> rfl

/-- Where names lead from a place. What directories hold besides does not matter. -/
def track (t : FileTree) : Place → List String → Except IoError Place
  | p, [] => .ok p
  | p, name :: names =>
    match t.kind? p with
    | some .directory =>
      if name = ".." then t.track p.tail names
      else if longestName < name.utf8ByteSize then .error .nameTooLong
      else t.track (name :: p) names
    | some (.file _) => .error .notDirectory
    | none => .error .notFound

theorem entries_spot (t : FileTree) (p : Place) :
    (t.spot p).entries = match t.at? p with
      | some (.directory es) => .ok es
      | some (.file _) => .error .notDirectory
      | none => .error .notFound := by
  rcases hp : t.at? p with _ | ⟨es⟩ | ⟨c⟩ <;> simp [Spot.entries, hp]

/-- One name is one step of the walk. -/
theorem enter_spot (t : FileTree) (p : Place) (name : String) :
    (t.spot p).enter name = (t.track p [name]).map t.spot := by
  unfold Spot.enter
  rw [entries_spot, track, kind?]
  cases hp : t.at? p with
  | none => rfl
  | some node =>
    cases node with
    | file c => rfl
    | directory es =>
      have hchild := t.at?_append p [name]
      rw [List.singleton_append, hp] at hchild
      by_cases hup : name = ".."
      · simp [FileNode.kind, hup, parent_spot, track, Except.map]
      · by_cases hlong : longestName < name.utf8ByteSize
        · simp [FileNode.kind, hup, hlong, Except.map]
        · simp [FileNode.kind, hup, hlong, track, Except.map, spot, hchild, FileNode.find?]

theorem track_cons (t : FileTree) (p : Place) (name : String) (names : List String) :
    t.track p (name :: names) = (t.track p [name]).bind fun q => t.track q names := by
  rw [track, track]
  cases t.kind? p with
  | none => rfl
  | some e =>
    cases e with
    | file c => rfl
    | directory =>
      simp only [track]
      split
      · rfl
      · split <;> rfl

theorem walk_spot (t : FileTree) (p : Place) (names : List String) :
    (t.spot p).walk names = (t.track p names).map t.spot := by
  induction names generalizing p with
  | nil => rfl
  | cons name names ih =>
    rw [Spot.walk, enter_spot, t.track_cons p name names]
    cases t.track p [name] with
    | error e => rfl
    | ok q => exact ih q

/-- A way is walked part by part. -/
theorem track_append (t : FileTree) (p : Place) (ns ms : List String) :
    t.track p (ns ++ ms) = (t.track p ns).bind fun q => t.track q ms := by
  induction ns generalizing p with
  | nil => rfl
  | cons name ns ih =>
    rw [List.cons_append, track_cons, track_cons t p name ns]
    cases t.track p [name] with
    | error e => rfl
    | ok q => exact ih q

theorem track_append_ok : t.track p (ns ++ ms) = .ok q ↔
    ∃ r, t.track p ns = .ok r ∧ t.track r ms = .ok q := by
  rw [track_append]
  cases t.track p ns with
  | error e => simp [Except.bind]
  | ok r => simp [Except.bind]

/-- A way that goes on starts in a directory. -/
theorem track_cons_ok (h : t.track p (name :: names) = .ok q) :
    t.kind? p = some .directory ∧
      (if name = ".." then t.track p.tail names = .ok q
        else name.utf8ByteSize ≤ longestName ∧ t.track (name :: p) names = .ok q) := by
  rw [track] at h
  split at h
  · next hp =>
    refine ⟨hp, ?_⟩
    split at h
    · next hup => rwa [if_pos hup]
    · next hup =>
      rw [if_neg hup]
      split at h
      · cases h
      · next hlong => exact ⟨by omega, h⟩
  · cases h
  · cases h

/-- Only a directory can be walked on from. -/
theorem directory_of_track (h : t.track p names = .ok q) (hne : names ≠ []) :
    t.kind? p = some .directory := by
  obtain ⟨name, rest, rfl⟩ := List.exists_cons_of_ne_nil hne
  exact (track_cons_ok h).1

/-- Names that all lead downwards are the last names of the place. -/
theorem track_proper (h : t.track p names = .ok q) (hn : ".." ∉ names) :
    q = names.reverse ++ p := by
  induction names generalizing p with
  | nil => exact (Except.ok.inj h).symm
  | cons name names ih =>
    have hup : name ≠ ".." := fun heq => hn (heq ▸ List.mem_cons_self)
    obtain ⟨-, htrack⟩ := track_cons_ok h
    rw [if_neg hup] at htrack
    rw [ih htrack.2 fun hmem => hn (List.mem_cons_of_mem _ hmem)]
    simp

/-- All directories of a tree are still there in another. -/
structure Retains (t t' : FileTree) : Prop where
  workingDirectory : t'.workingDirectory = t.workingDirectory
  directory : ∀ p, t.kind? p = some .directory → t'.kind? p = some .directory

/-- A path leads to a place, whether there is something or not. -/
def LeadsTo (t : FileTree) (path : Path) (p : Place) : Prop :=
  ∃ s, t.resolve path = .ok s ∧ s.place = p

def origin (t : FileTree) (path : Path) : Place :=
  if path.isAbsolute then [] else t.workingDirectory

theorem walk_start (t : FileTree) (path : Path) (names : List String) :
    (t.start path).walk names = (t.track (t.origin path) names).map t.spot := by
  rw [start, ← origin, walk_spot]

theorem entries_ok {es : List (String × FileNode)} :
    (t.spot p).entries = .ok es ↔ t.at? p = some (.directory es) := by
  rw [entries_spot]
  rcases t.at? p with _ | ⟨es'⟩ | ⟨c⟩ <;> simp

theorem isOk_entries : (∃ es, (t.spot p).entries = .ok es) ↔ t.kind? p = some .directory := by
  simp only [entries_ok, kind?_directory]

/-- A path that leads somewhere leads there step by step. -/
theorem resolve_ok {s : Spot} (h : t.resolve path = .ok s) :
    s = t.spot s.place ∧ path.isTooLong = false ∧ path.isEmpty = false ∧
      t.track (t.origin path) path.names = .ok s.place ∧
      (path.ending = .name ∨ t.kind? s.place = some .directory) := by
  rw [resolve, walk_start] at h
  cases hlong : path.isTooLong with
  | true => simp [hlong] at h
  | false =>
    cases hempty : path.isEmpty with
    | true => simp [hlong, hempty] at h
    | false =>
      cases htrack : t.track (t.origin path) path.names with
      | error e => simp [hlong, hempty, htrack, Except.map] at h
      | ok p =>
        by_cases hname : path.ending = .name
        · simp only [hlong, hempty, htrack, Except.map, hname] at h
          obtain rfl := Except.ok.inj h
          rw [place_spot]
          exact ⟨rfl, rfl, rfl, rfl, .inl hname⟩
        · have hdirectory : ∃ es, (t.spot p).entries = .ok es ∧ t.spot p = s := by
            cases hes : (t.spot p).entries with
            | error e => simp [hlong, hempty, htrack, Except.map, hname, hes] at h
            | ok es =>
              refine ⟨es, rfl, ?_⟩
              simpa [hlong, hempty, htrack, Except.map, hname, hes] using h
          obtain ⟨es, hes, rfl⟩ := hdirectory
          rw [place_spot]
          exact ⟨rfl, rfl, rfl, rfl, .inr (isOk_entries.1 ⟨es, hes⟩)⟩

/-- A path leads where its names lead, to a directory if it must. -/
theorem leadsTo_iff : t.LeadsTo path p ↔ path.isTooLong = false ∧ path.isEmpty = false ∧
    t.track (t.origin path) path.names = .ok p ∧
      (path.ending = .name ∨ t.kind? p = some .directory) := by
  constructor
  · rintro ⟨s, hs, rfl⟩
    exact (resolve_ok hs).2
  · rintro ⟨hlong, hempty, htrack, hending⟩
    refine ⟨t.spot p, ?_, place_spot t p⟩
    by_cases hname : path.ending = .name
    · simp [resolve, walk_start, hlong, hempty, htrack, Except.map, hname]
    · obtain ⟨es, hes⟩ := isOk_entries.2 (hending.resolve_left hname)
      simp [resolve, walk_start, hlong, hempty, htrack, Except.map, hname, hes]

/-- What is found stands at the place that the path leads to. -/
theorem find_ok : t.find path = .ok node ↔ ∃ p, t.LeadsTo path p ∧ t.at? p = some node := by
  unfold find
  constructor
  · intro h
    split at h
    · cases h
    · next s hs =>
      refine ⟨s.place, ⟨s, hs, rfl⟩, ?_⟩
      rw [← node?_spot, ← (resolve_ok hs).1]
      split at h
      · next hnode => rw [hnode, Except.ok.inj h]
      · cases h
  · rintro ⟨p, ⟨s, hs, rfl⟩, hp⟩
    rw [← node?_spot, ← (resolve_ok hs).1] at hp
    simp [hs, hp]

namespace Retains

theorem refl (t : FileTree) : Retains t t :=
  ⟨rfl, fun _ h => h⟩

theorem trans (h : Retains t t') (h' : Retains t' t'') : Retains t t'' where
  workingDirectory := h'.workingDirectory.trans h.workingDirectory
  directory p hp := h'.directory p (h.directory p hp)

variable (h : Retains t t')

include h

theorem origin (path : Path) : t'.origin path = t.origin path := by
  rw [FileTree.origin, FileTree.origin, h.workingDirectory]

theorem track (ht : t.track p names = .ok q) : t'.track p names = .ok q := by
  induction names generalizing p with
  | nil => exact ht
  | cons name names ih =>
    obtain ⟨hdir, hrest⟩ := track_cons_ok ht
    rw [FileTree.track, h.directory p hdir]
    by_cases hup : name = ".."
    · rw [if_pos hup] at hrest
      simp only [if_pos hup, ih hrest]
    · rw [if_neg hup] at hrest
      simp only [if_neg hup, if_neg (show ¬ longestName < name.utf8ByteSize by omega), ih hrest.2]

/-- A path leads to the same place in a tree that retains what was there. -/
theorem leadsTo (hp : t.LeadsTo path p) : t'.LeadsTo path p := by
  obtain ⟨hlong, hempty, htrack, hending⟩ := leadsTo_iff.1 hp
  rw [← h.origin] at htrack
  exact leadsTo_iff.2 ⟨hlong, hempty, h.track htrack, hending.imp_right (h.directory p)⟩

end Retains

end FileTree

end TrapFacts
