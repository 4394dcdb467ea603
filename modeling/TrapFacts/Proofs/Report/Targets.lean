import TrapFacts.Proofs.File.Making
import TrapFacts.Proofs.File.Placing
import TrapFacts.TrapUnit

/-! Where the traps of units go. Different paths lead to different places. -/

namespace TrapFacts

variable {t : FileTree} {p : Place} {m : Model} {l : Layout} {unit unit' : TrapUnit}

namespace Path

theorem names_directory {path : Path} (h : path.names ≠ []) :
    ∃ name, path.names = path.directory.names ++ [name] := by
  have hlength : path.names.length = path.steps.length := List.length_map _
  have hdirectory : path.directory.names = path.names.dropLast := by
    rw [List.dropLast_eq_take, hlength]
    exact List.map_take
  exact ⟨path.names.getLast h, by rw [hdirectory, List.dropLast_append_getLast]⟩

end Path

theorem FileTree.origin_directory (t : FileTree) (path : Path) :
    t.origin path = t.origin path.directory :=
  rfl

namespace TrapUnit

def target (unit : TrapUnit) (m : Model) (l : Layout) : Path :=
  Path.ofString (l.pathFor (unit.name m))

/-- The way to a target leads through the directory of the run. -/
theorem names_target (unit : TrapUnit) (m : Model) (l : Layout) :
    (unit.target m l).names = (Path.ofString l.directory).names ++ l.trapNames (unit.name m) :=
  l.names_pathFor _

theorem origin_target (t : FileTree) (unit : TrapUnit) (m : Model) (l : Layout) :
    t.origin (unit.target m l) = t.origin (Path.ofString l.directory) := by
  rw [FileTree.origin, FileTree.origin, target, l.isAbsolute_pathFor]

/-- Below the directory of the run, no step goes up again. -/
theorem upwards_notMem_trapNames (l : Layout) (name : String) : ".." ∉ l.trapNames name :=
  fun h => (l.mem_trapNames name h).2.2 rfl

theorem trapNames_ne_nil (l : Layout) (name : String) : l.trapNames name ≠ [] := by
  simp [Layout.trapNames]

theorem names_target_ne_nil (unit : TrapUnit) (m : Model) (l : Layout) :
    (unit.target m l).names ≠ [] := by
  rw [names_target]
  exact List.append_ne_nil_of_right_ne_nil _ (trapNames_ne_nil l _)

/-- Below the output directory a target leads downwards only. -/
theorem settles_target (h : t.Settles (Path.ofString l.directory)) (unit : TrapUnit) (m : Model) :
    t.Settles (unit.target m l) := by
  intro ns ms hnames
  have hstart : t.start (unit.target m l) = t.start (Path.ofString l.directory) :=
    congrArg t.spot (origin_target t unit m l)
  rw [unit.names_target m l] at hnames
  rw [hstart]
  rcases List.append_eq_append_iff.1 hnames with ⟨ds, hns, htrap⟩ | ⟨ds, hdirectory, hms⟩
  · exact absurd (htrap ▸ List.mem_append_right ds List.mem_cons_self)
      (upwards_notMem_trapNames l _)
  · cases ds with
    | nil =>
      exact absurd (List.mem_cons_self (a := "..") (l := ms)) (by
        rw [hms]
        exact upwards_notMem_trapNames l _)
    | cons d ds =>
      obtain ⟨rfl, -⟩ := List.cons.inj hms
      exact h ns ds hdirectory

/-- The place of a target is below the output directory. -/
theorem place_target (h : t.LeadsTo (unit.target m l) p) : ∃ base,
    t.track (t.origin (Path.ofString l.directory)) (Path.ofString l.directory).names = .ok base ∧
      p = (l.trapNames (unit.name m)).reverse ++ base := by
  obtain ⟨-, -, htrack, -⟩ := FileTree.leadsTo_iff.1 h
  rw [unit.names_target, origin_target] at htrack
  obtain ⟨base, hbase, hdown⟩ := FileTree.track_append_ok.1 htrack
  exact ⟨base, hbase, FileTree.track_proper hdown (upwards_notMem_trapNames l _)⟩

/-- Units whose traps go to one place have one path for them. -/
theorem pathFor_eq_of_leadsTo (h : t.LeadsTo (unit.target m l) p)
    (h' : t.LeadsTo (unit'.target m l) p) : l.pathFor (unit.name m) = l.pathFor (unit'.name m) := by
  obtain ⟨base, hbase, hp⟩ := place_target h
  obtain ⟨base', hbase', hp'⟩ := place_target h'
  obtain rfl := Except.ok.inj (hbase.symm.trans hbase')
  have hnames := List.append_cancel_right (hp.symm.trans hp')
  rw [l.pathFor_eq, l.pathFor_eq, List.reverse_inj.1 hnames]

/-- No target is where a temporary file can be. -/
theorem not_leadsTo_temporary (k : Nat) (above : Place) :
    ¬ t.LeadsTo (unit.target m l) (FileTree.temporaryName k :: above) := by
  intro h
  obtain ⟨base, -, hp⟩ := place_target h
  obtain ⟨front, last, -, htrap⟩ := l.exists_trapNames (unit.name m)
  rw [htrap, List.reverse_append, List.reverse_singleton] at hp
  exact Layout.temporaryName_ne k last l.compression (List.cons.inj hp).1

end TrapUnit

end TrapFacts
