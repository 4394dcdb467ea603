import Mathlib.Data.List.Nodup
import Mathlib.Data.List.Perm.Subperm
import Std.Data.String.ToNat
import TrapFacts.Proofs.File.Making
import TrapFacts.TrapFile

/-! What becomes of a draft: it is moved into place, or nothing is left of it. -/

namespace TrapFacts

variable {t t' u : FileTree} {p q place : Place} {directory target : Path} {name : String}
  {names : List String} {c : Content}

namespace FileTree

/-- Drafts of different numbers are told apart by their names. -/
theorem temporaryName_injective : Function.Injective temporaryName := by
  intro n n' h
  exact Nat.repr_inj.1 ((String.append_right_inj _).1 h)

/-- There are more temporary names than entries, so one of them is free. -/
theorem lookup_freshName (es : List (String × FileNode)) : es.lookup (freshName es) = none := by
  cases hfind : (List.range (es.length + 1)).find? fun n =>
      (es.lookup (temporaryName n)).isNone with
  | some n =>
    have hfree := List.find?_some hfind
    simpa [freshName, hfind] using hfree
  | none =>
    exfalso
    have htaken : (List.range (es.length + 1)).map temporaryName ⊆ es.map Prod.fst := by
      intro name hname
      obtain ⟨n, hn, rfl⟩ := List.mem_map.1 hname
      have hlookup := List.find?_eq_none.1 hfind n hn
      by_contra hmem
      apply hlookup
      rw [Option.isNone_iff_eq_none, List.lookup_eq_none_iff]
      intro e he
      have hne : e.1 ≠ temporaryName n := fun heq => hmem (List.mem_map.2 ⟨e, he, heq⟩)
      simpa using hne.symm
    have hnodup : ((List.range (es.length + 1)).map temporaryName).Nodup :=
      List.nodup_range.map temporaryName_injective
    have hlength := (hnodup.subperm htaken).length_le
    simp only [List.length_map, List.length_range] at hlength
    omega

/-- A place in a directory where there is no directory, so that a file can be put there. -/
structure Vacant (t : FileTree) (p : Place) : Prop where
  kind : t.kind? p ≠ some .directory
  parent : ∃ name above, p = name :: above ∧ t.kind? above = some .directory

namespace Vacant

variable (h : Vacant t p)

include h

theorem kind?_put (c : Content) (q : Place) : (t.put p (.file c)).kind? q =
    if q = p then some (.file c) else t.kind? q := by
  obtain ⟨name, above, rfl, habove⟩ := h.parent
  exact FileTree.kind?_put habove h.kind fun _ _ => rfl

theorem at?_put (c : Content) : (t.put p (.file c)).at? p = some (.file c) :=
  kind?_file.1 (by rw [h.kind?_put, if_pos rfl])

theorem directory_iff (c : Content) (q : Place) :
    (t.put p (.file c)).kind? q = some .directory ↔ t.kind? q = some .directory := by
  rw [h.kind?_put]
  split
  · next heq =>
    subst heq
    constructor
    · rintro ⟨⟩
    · exact fun hdir => absurd hdir h.kind
  · rfl

theorem retains (c : Content) : Retains t (t.put p (.file c)) :=
  ⟨rfl, fun q => (h.directory_iff c q).2⟩

theorem retains_back (c : Content) : Retains (t.put p (.file c)) t :=
  ⟨rfl, fun q => (h.directory_iff c q).1⟩

end Vacant

/-- There is a draft in a tree, at a place where nothing was. -/
structure Drafted (t : FileTree) (p : Place) (t' : FileTree) : Prop where
  free : t.at? p = none
  vacant : Vacant t p
  put : t' = t.put p (.file (.text ""))

/-- A draft has a temporary name in its directory. -/
theorem createTemporary_ok (h : t.createTemporary directory = .ok (p, t')) :
    Drafted t p t' ∧ ∃ k place, p = temporaryName k :: place ∧ t.LeadsTo directory place := by
  unfold createTemporary at h
  cases hs : t.resolve directory with
  | error e =>
    rw [hs] at h
    cases h
  | ok s =>
    cases hes : s.entries with
    | error e =>
      simp only [hs, hes, bind, Except.bind] at h
      cases h
    | ok es =>
      simp only [hs, hes, bind, Except.bind] at h
      cases h
      rw [(resolve_ok hs).1] at hes
      have hdir := entries_ok.1 hes
      have hfree : t.at? (freshName es :: s.place) = none := by
        have hat := t.at?_append s.place [freshName es]
        rw [hdir] at hat
        simpa [FileNode.find?, lookup_freshName] using hat
      refine ⟨⟨hfree, ⟨?_, _, _, rfl, kind?_directory.2 ⟨es, hdir⟩⟩, rfl⟩, _, _, rfl, s, hs, rfl⟩
      rw [kind?_none.2 hfree]
      exact (Option.some_ne_none _).symm

theorem track_last (h : t.track p (names ++ [name]) = .ok q) (hup : name ≠ "..") :
    ∃ above, q = name :: above ∧ t.kind? above = some .directory := by
  obtain ⟨above, -, hrest⟩ := track_append_ok.1 h
  obtain ⟨hdir, hlast⟩ := track_cons_ok hrest
  rw [if_neg hup] at hlast
  exact ⟨above, (Except.ok.inj hlast.2).symm, hdir⟩

/-- The walk to the last name of a path, as a move makes it. -/
theorem walk_enter (t : FileTree) (path : Path) (names : List String) (name : String) :
    (do (← (t.start path).walk names).enter name) =
      (t.track (t.origin path) (names ++ [name])).map t.spot := by
  rw [walk_start, track_append]
  cases t.track (t.origin path) names with
  | error e => rfl
  | ok q => exact enter_spot t q name

theorem isEmpty_of_names (h : target.names ≠ []) : target.isEmpty = false := by
  have hsteps : target.steps ≠ [] := fun hnil => h (List.map_eq_nil_iff.2 hnil)
  simp [Path.isEmpty, hsteps]

/-- A file moves to where its target leads, to a name in a directory. -/
theorem movable_ok (h : t.movable target = .ok place) :
    t.LeadsTo target place ∧ Vacant t place := by
  unfold movable at h
  cases hlong : target.isTooLong with
  | true => simp [hlong] at h
  | false =>
    cases hreverse : target.names.reverse with
    | nil => simp [hlong, hreverse] at h
    | cons name above =>
      have hnames : target.names = above.reverse ++ [name] := by
        rw [← target.names.reverse_reverse, hreverse, List.reverse_cons]
      simp only [hlong, hreverse, Bool.false_eq_true, if_false] at h
      rw [← bind_assoc, walk_enter, ← hnames] at h
      cases htrack : t.track (t.origin target) target.names with
      | error e => simp [htrack, Except.map, bind, Except.bind] at h
      | ok q =>
        simp only [htrack, Except.map, bind, Except.bind, node?_spot, place_spot] at h
        split at h
        · cases hes : (t.spot q).entries <;> simp [hes] at h
        next hdot =>
        split at h
        · cases h
        next hup =>
        split at h
        · cases h
        next hslash =>
        obtain ⟨hkind, rfl⟩ : t.kind? q ≠ some .directory ∧ q = place := by
          rw [Ne, kind?_directory, not_exists]
          cases hat : t.at? q with
          | none => simp_all
          | some node => cases node <;> simp_all
        have hname : target.ending = .name := by
          cases hending : target.ending with
          | name => rfl
          | dot => exact absurd hending hdot
          | slash => exact absurd hending hslash
        have hempty : target.isEmpty = false := isEmpty_of_names (by simp [hnames])
        obtain ⟨above, hq, habove⟩ := track_last (hnames ▸ htrack) hup
        exact ⟨leadsTo_iff.2 ⟨hlong, hempty, htrack, .inl hname⟩, hkind, name, above, hq, habove⟩

/-- A move that succeeds puts the file in place of what was there, and takes it from where it
was. -/
theorem move_ok (hp : t.at? p = some (.file c)) (h : t.move p target = .ok t') :
    ∃ place, t.LeadsTo target place ∧ Vacant t place ∧
      t' = (t.erase p).put place (.file c) := by
  unfold FileTree.move at h
  rw [hp] at h
  split at h
  · cases h
  · next heq => cases heq
  · next place node hplace heq =>
    obtain rfl := Option.some.inj heq
    obtain ⟨hleads, hvacant⟩ := movable_ok hplace
    exact ⟨place, hleads, hvacant, (Except.ok.inj h).symm⟩

/-- A draft that is written and moved comes to its place, and nothing is left of it. -/
theorem Drafted.move (h : Drafted t p t') (c : Content)
    (hmove : (t.put p (.file c)).move p target = .ok u) :
    ∃ place, t.LeadsTo target place ∧ Vacant t place ∧ u = t.put place (.file c) := by
  obtain ⟨place, hleads, ⟨hkind, n, above, rfl, habove⟩, rfl⟩ :=
    move_ok (h.vacant.at?_put c) hmove
  -- The draft itself makes no difference to where a file can be put.
  have hvacant : Vacant t (n :: above) :=
    ⟨fun hdir => hkind ((h.vacant.directory_iff c _).2 hdir), n, above, rfl,
      (h.vacant.directory_iff c _).1 habove⟩
  refine ⟨n :: above, (h.vacant.retains_back c).leadsTo hleads, hvacant, ?_⟩
  rw [erase_put h.free]

/-- The tree when all directories above a target are made that can be. -/
def prepared (t : FileTree) (target : Path) : FileTree :=
  (t.makeDirectories target.directory target.directory.steps.length).2

theorem prepared_made (t : FileTree) (target : Path) :
    Made t target.directory (t.prepared target) :=
  makeDirectories_made t _ _

end FileTree

/-- One operation, and then the rest. -/
theorem run_bind {α β : Type} {f : StateM FileTree α} {g : α → StateM FileTree β} {a : α}
    (h : f.run t = (a, t')) : (f >>= g).run t = (g a).run t' := by
  rw [StateT.run_bind, h]
  rfl

namespace TrapFile

open FileTree

variable {f : TrapFile (StateM FileTree)}

/-- A file is started with a draft, or there are at most more directories than before. -/
theorem create_cases (t : FileTree) (target : Path) (c : Compression) :
    (∃ e, (create (m := StateM FileTree) target c).run t = (.error e, t.prepared target)) ∨
      ∃ f t', (create (m := StateM FileTree) target c).run t = (.ok f, t') ∧ f.target = target ∧
        f.compression = c ∧ Drafted (t.prepared target) f.draft t' := by
  unfold create prepared
  have hrun : (FileStore.makeDirectories (m := StateM FileTree) target.directory).run t =
      t.makeDirectories target.directory target.directory.steps.length := rfl
  rcases hmake : t.makeDirectories target.directory target.directory.steps.length with ⟨_ | e, u⟩
  · rw [hmake] at hrun
    cases htemporary : u.createTemporary target.directory with
    | error e =>
      left
      have hdraft : (FileStore.createTemporary (m := StateM FileTree) target.directory).run u =
          (.error e, u) := by
        simp only [FileStore.createTemporary, FileCall.run, StateT.run, htemporary]
        rfl
      exact ⟨e, (run_bind hrun).trans (run_bind hdraft)⟩
    | ok r =>
      obtain ⟨p, t'⟩ := r
      right
      have hdraft : (FileStore.createTemporary (m := StateM FileTree) target.directory).run u =
          (.ok p, t') := by
        simp only [FileStore.createTemporary, FileCall.run, StateT.run, htemporary]
        rfl
      exact ⟨⟨target, c, p⟩, t', (run_bind hrun).trans (run_bind hdraft), rfl, rfl,
        (createTemporary_ok htemporary).1⟩
  · rw [hmake] at hrun
    exact .inl ⟨e, run_bind hrun⟩

/-- A draft that is abandoned leaves the tree as it was before. -/
theorem abandon_eq (h : Drafted t f.draft t') : f.abandon.run t' = ((), t) := by
  rw [h.put]
  exact congrArg _ (erase_put h.free _)

/-- A draft is moved into place, or the tree is as it was before the draft. -/
theorem finish_cases (h : Drafted t f.draft t') (records : List Record) :
    (∃ e, (f.finish records).run t' = (.error e, t)) ∨
      ∃ place, t.LeadsTo f.target place ∧ Vacant t place ∧ (f.finish records).run t' =
        (.ok (), t.put place (.file (.pack f.compression (trapText records)))) := by
  let written : FileNode := .file (.pack f.compression (trapText records))
  have hwrite : t'.put f.draft written = t.put f.draft written := by
    rw [h.put, put_put]
  have herase : (t.put f.draft written).erase f.draft = t := erase_put h.free _
  have hrun : (FileStore.write (m := StateM FileTree) f.draft
      (.pack f.compression (trapText records))).run t' = (none, t.put f.draft written) :=
    congrArg (none, ·) hwrite
  unfold finish
  cases hmove : (t.put f.draft written).move f.draft f.target with
  | error e =>
    left
    have hfailure : (FileStore.move (m := StateM FileTree) f.draft f.target).run
        (t.put f.draft written) = (some e, t.put f.draft written) := by
      simp only [FileStore.move, FileCall.run, FileCall.settle, StateT.run, hmove]
    have habandon : f.abandon.run (t.put f.draft written) = ((), t) := congrArg _ herase
    exact ⟨e, (run_bind hrun).trans ((run_bind hfailure).trans (run_bind habandon))⟩
  | ok u =>
    right
    have hdone : (FileStore.move (m := StateM FileTree) f.draft f.target).run
        (t.put f.draft written) = (none, u) := by
      simp only [FileStore.move, FileCall.run, FileCall.settle, StateT.run, hmove]
    obtain ⟨place, hleads, hvacant, rfl⟩ := h.move _ hmove
    exact ⟨place, hleads, hvacant, (run_bind hrun).trans (run_bind hdone)⟩

end TrapFile

end TrapFacts
