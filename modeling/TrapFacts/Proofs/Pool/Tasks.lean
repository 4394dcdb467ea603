import TrapFacts.Pool
import TrapFacts.Proofs.Report.Deliveries

/-! What a unit in a pool does to the files, one operation after the other. -/

namespace TrapFacts

variable {α β : Type} {m : Model} {l : Layout} {overwrite : Bool} {unit : TrapUnit} {x : Extractor}
  {t t' u : FileTree} {p q place : Place} {c : Content} {target : Path}

namespace FileTree

variable {name : String} {c' : Content}

theorem vacant_of_file (h : t.kind? (name :: p) = some (.file c)) : t.Vacant (name :: p) := by
  refine ⟨?_, name, p, rfl, kind?_parent h⟩
  rw [h]
  rintro ⟨⟩

theorem retains_erase (h : t.kind? (name :: p) = some (.file c)) :
    t.Retains (t.erase (name :: p)) := by
  refine ⟨rfl, fun q hq => ?_⟩
  have hne : q ≠ name :: p := by
    rintro rfl
    rw [h] at hq
    cases hq
  rw [kind?_erase h, if_neg hne, hq]

/-- What a file is moved to is vacant without it, too. -/
theorem Vacant.erase (hv : t.Vacant place) (h : t.kind? (name :: p) = some (.file c))
    (hne : place ≠ name :: p) : (t.erase (name :: p)).Vacant place := by
  obtain ⟨hkind, n, above, rfl, habove⟩ := hv
  refine ⟨?_, n, above, rfl, (retains_erase h).directory above habove⟩
  rwa [kind?_erase h, if_neg hne]

/-- A file that was moved is at its new place alone. -/
theorem Vacant.kind?_move (hv : t.Vacant place) (h : t.kind? (name :: p) = some (.file c))
    (hne : place ≠ name :: p) (q : Place) :
    ((t.erase (name :: p)).put place (.file c')).kind? q =
      if q = place then some (.file c') else if q = name :: p then none else t.kind? q := by
  rw [(hv.erase h hne).kind?_put, kind?_erase h]

end FileTree

namespace TrapUnit

/-- The place of a target is in that of its directory. -/
theorem place_directory (h : t.LeadsTo (unit.target m l) p) : ∃ name place, p = name :: place ∧
    t.track (t.origin (unit.target m l).directory) (unit.target m l).directory.names =
      .ok place := by
  obtain ⟨-, -, htrack, -⟩ := FileTree.leadsTo_iff.1 h
  obtain ⟨front, last, -, htrap⟩ := l.exists_trapNames (unit.name m)
  obtain ⟨name, hnames⟩ := Path.names_directory (unit.names_target_ne_nil m l)
  have hproper : name ≠ ".." := by
    rintro rfl
    have hlast : ".." ∈ l.trapNames (unit.name m) := by
      have heq := (unit.names_target m l).symm.trans hnames
      rw [htrap, ← List.append_assoc] at heq
      rw [htrap, (List.append_inj' heq rfl).2]
      simp
    exact upwards_notMem_trapNames l _ hlast
  rw [hnames] at htrack
  obtain ⟨place, hplace, hname⟩ := FileTree.track_append_ok.1 htrack
  obtain ⟨-, hname⟩ := FileTree.track_cons_ok hname
  rw [if_neg hproper] at hname
  exact ⟨name, place, (Except.ok.inj hname.2).symm, hplace⟩

/-- A draft beside a target is neither there nor below it. -/
theorem append_ne_draft (hp : t.LeadsTo (unit.target m l) p)
    (hplace : t.LeadsTo (unit.target m l).directory place) (above : Place) (k : Nat) :
    above ++ p ≠ FileTree.temporaryName k :: place := by
  intro heq
  obtain ⟨name, place', rfl, htrack⟩ := place_directory hp
  obtain rfl : place' = place :=
    Except.ok.inj (htrack.symm.trans (FileTree.leadsTo_iff.1 hplace).2.2.1)
  have hlength := congrArg List.length heq
  simp only [List.length_append, List.length_cons] at hlength
  obtain rfl : above = [] := List.length_eq_zero_iff.1 (by omega)
  rw [List.nil_append] at heq
  exact unit.not_leadsTo_temporary k place' (heq ▸ hp)

end TrapUnit

/-- How far a unit has come. -/
inductive Stage where
  /-- Without a draft. -/
  | empty
  | drafted (draft : Place) (content : Content)
  /-- The draft was moved to the target. -/
  | placed (content : Content)

namespace Stage

def draft? : Stage → Option Place
  | drafted draft _ => some draft
  | _ => none

/-- The draft of a stage is a file of that content, beside the target. -/
def Holds (target : Path) (t : FileTree) : Stage → Prop
  | drafted p c => t.kind? p = some (.file c) ∧
      ∃ k place, p = FileTree.temporaryName k :: place ∧ t.LeadsTo target.directory place
  | _ => True

theorem Holds.draft {stage : Stage} (h : stage.Holds target t) (hd : stage.draft? = some p) :
    ∃ c, t.kind? p = some (.file c) ∧ ∃ k above, p = FileTree.temporaryName k :: above := by
  cases stage with
  | empty | placed => cases hd
  | drafted q c =>
    obtain rfl := Option.some.inj hd
    obtain ⟨hfile, k, above, hq, -⟩ := h
    exact ⟨c, hfile, k, above, hq⟩

/-- What one operation can do. -/
inductive Step (target : Path) : Stage → FileTree → Stage → FileTree → Prop
  | still (stage : Stage) (t : FileTree) : Step target stage t stage t
  | made {t t' : FileTree} (stage : Stage) : t.Made target.directory t' →
      Step target stage t stage t'
  | drafted {t t' : FileTree} {k : Nat} {place : Place} : t.LeadsTo target.directory place →
      t.Drafted (FileTree.temporaryName k :: place) t' →
      Step target .empty t (.drafted (FileTree.temporaryName k :: place) (.text "")) t'
  | written (t : FileTree) (p : Place) (c c' : Content) :
      Step target (.drafted p c) t (.drafted p c') (t.put p (.file c'))
  | discarded (t : FileTree) (p : Place) (c : Content) :
      Step target (.drafted p c) t .empty (t.erase p)
  | placed {t : FileTree} {p place : Place} {c : Content} : t.LeadsTo target place →
      t.Vacant place → Step target (.drafted p c) t (.placed c) ((t.erase p).put place (.file c))

theorem Step.placed_stays {stage : Stage} (h : Step target (.placed c) t stage t') :
    stage = .placed c := by
  cases h with
  | still | made => rfl

namespace Step

variable {stage stage' : Stage} (h : Step (unit.target m l) stage t stage' t')
  (ht : stage.Holds (unit.target m l) t)

include h ht

theorem holds : stage'.Holds (unit.target m l) t' := by
  cases h with
  | still => exact ht
  | made _ hm =>
    cases stage with
    | empty | placed => trivial
    | drafted p c =>
      obtain ⟨hp, k, place, rfl, hplace⟩ := ht
      exact ⟨hm.file.2 hp, k, place, rfl, hm.retains.leadsTo hplace⟩
  | @drafted _ _ k place hplace hd =>
    rw [hd.put]
    refine ⟨?_, k, place, rfl, (hd.vacant.retains _).leadsTo hplace⟩
    rw [hd.vacant.kind?_put, if_pos rfl]
  | written _ p c c' =>
    obtain ⟨hp, k, place, rfl, hplace⟩ := ht
    have hv := FileTree.vacant_of_file hp
    refine ⟨?_, k, place, rfl, (hv.retains _).leadsTo hplace⟩
    rw [hv.kind?_put, if_pos rfl]
  | discarded | placed => trivial

theorem retains : t.Retains t' := by
  cases h with
  | still => exact .refl t
  | made _ hm => exact hm.retains
  | drafted _ hd =>
    rw [hd.put]
    exact hd.vacant.retains _
  | written _ p c c' =>
    obtain ⟨hp, k, place, rfl, -⟩ := ht
    exact (FileTree.vacant_of_file hp).retains _
  | discarded _ p c =>
    obtain ⟨hp, k, place, rfl, -⟩ := ht
    exact FileTree.retains_erase hp
  | @placed _ _ place c hplace hv =>
    obtain ⟨hp, k, above, rfl, -⟩ := ht
    have hne : place ≠ FileTree.temporaryName k :: above := fun heq =>
      unit.not_leadsTo_temporary k above (heq ▸ hplace)
    exact (FileTree.retains_erase hp).trans ((hv.erase hp hne).retains _)

/-- A draft that is new is put where nothing was. -/
theorem draft_new (hd : stage'.draft? = some p) : stage.draft? = some p ∨ t.kind? p = none := by
  cases h with
  | still | made | written => exact .inl hd
  | drafted _ hdrafted =>
    obtain rfl := Option.some.inj hd
    exact .inr (FileTree.kind?_none.2 hdrafted.free)
  | discarded | placed => cases hd

/-- Nothing is left of a draft that was given up or moved. -/
theorem draft_gone (hd : stage.draft? = some p) (hd' : stage'.draft? ≠ some p) :
    t'.kind? p = none := by
  cases h with
  | still | made | written => exact absurd hd hd'
  | drafted => cases hd
  | discarded _ q c =>
    obtain rfl := Option.some.inj hd
    obtain ⟨hq, k, place, rfl, -⟩ := ht
    rw [FileTree.kind?_erase hq, if_pos rfl]
  | @placed _ _ place c hplace hv =>
    obtain rfl := Option.some.inj hd
    obtain ⟨hq, k, above, rfl, -⟩ := ht
    have hne : place ≠ FileTree.temporaryName k :: above := fun heq =>
      unit.not_leadsTo_temporary k above (heq ▸ hplace)
    rw [hv.kind?_move hq hne, if_neg hne.symm, if_pos rfl]

/-- A draft that was moved is at the target now. -/
theorem placed_new (hplaced : stage' = .placed c) : stage = .placed c ∨
    ∃ place, t'.LeadsTo (unit.target m l) place ∧ t'.kind? place = some (.file c) := by
  subst hplaced
  have hretains := retains h ht
  cases h with
  | still | made => exact .inl rfl
  | @placed _ _ place _ hplace hv =>
    obtain ⟨hq, k, above, rfl, -⟩ := ht
    have hne : place ≠ FileTree.temporaryName k :: above := fun heq =>
      unit.not_leadsTo_temporary k above (heq ▸ hplace)
    refine .inr ⟨place, hretains.leadsTo hplace, ?_⟩
    rw [hv.kind?_move hq hne, if_pos rfl]

/-- The files that an operation touches are the draft and the target. -/
theorem file_iff (hq : ¬ t.LeadsTo (unit.target m l) q) (hd : stage.draft? ≠ some q)
    (hd' : stage'.draft? ≠ some q) :
    t'.kind? q = some (.file c) ↔ t.kind? q = some (.file c) := by
  cases h with
  | still => rfl
  | made _ hm => exact hm.file
  | drafted _ hdrafted =>
    have hne : q ≠ _ := fun heq => hd' (congrArg some heq.symm)
    rw [hdrafted.put, hdrafted.vacant.kind?_put, if_neg hne]
  | written _ p c c' =>
    obtain ⟨hp, k, place, rfl, -⟩ := ht
    have hne : q ≠ _ := fun heq => hd (congrArg some heq.symm)
    rw [(FileTree.vacant_of_file hp).kind?_put, if_neg hne]
  | discarded _ p c =>
    obtain ⟨hp, k, place, rfl, -⟩ := ht
    have hne : q ≠ _ := fun heq => hd (congrArg some heq.symm)
    rw [FileTree.kind?_erase hp, if_neg hne]
  | @placed _ _ place c hplace hv =>
    obtain ⟨hp, k, above, rfl, -⟩ := ht
    have hne : place ≠ FileTree.temporaryName k :: above := fun heq =>
      unit.not_leadsTo_temporary k above (heq ▸ hplace)
    have hdraft : q ≠ _ := fun heq => hd (congrArg some heq.symm)
    have htarget : q ≠ place := fun heq => hq (heq ▸ hplace)
    rw [hv.kind?_move hp hne, if_neg htarget, if_neg hdraft]

/-- Until the draft is moved, what is at the target and below it stays as it is. -/
theorem unchanged (hs : t.Settles (unit.target m l)) (hr : t'.Retains u)
    (hp : u.LeadsTo (unit.target m l) p) (hne : ∀ c, stage' = .placed c → stage = .placed c)
    (above : Place) :
    t'.kind? (above ++ p) = t.kind? (above ++ p) := by
  have hapart : ∀ k place, t.LeadsTo (unit.target m l).directory place →
      above ++ p ≠ FileTree.temporaryName k :: place := fun k place hplace =>
    TrapUnit.append_ne_draft hp (((retains h ht).trans hr).leadsTo hplace) above k
  cases h with
  | still => rfl
  | made _ hm =>
    exact hm.unchanged hr hs (unit.names_target_directory m l) (·.origin_directory _) hp above
  | drafted hplace hd =>
    rw [hd.put, hd.vacant.kind?_put, if_neg (hapart _ _ hplace)]
  | written _ q c c' =>
    obtain ⟨hq, k, place, rfl, hplace⟩ := ht
    rw [(FileTree.vacant_of_file hq).kind?_put, if_neg (hapart _ _ hplace)]
  | discarded _ q c =>
    obtain ⟨hq, k, place, rfl, hplace⟩ := ht
    rw [FileTree.kind?_erase hq, if_neg (hapart _ _ hplace)]
  | placed => cases hne _ rfl

end Step

end Stage

namespace Task

/-- A task that keeps to the stages of a unit, and what may come out of it at each. -/
def Conforms {α : Type} (target : Path) (ends : Stage → α → Prop) : Stage → Task α → Prop
  | stage, .done a => ends stage a
  | stage, .call (.readText _) next => ∀ text, (next text).Conforms target ends stage
  | stage, .call (.contains _) next => ∀ found, (next found).Conforms target ends stage
  | stage, .call (.containsDirectory _) next => ∀ found, (next found).Conforms target ends stage
  | stage, .call (.makeDirectory path) next =>
    (∃ n, path = target.directory.take n) ∧ ∀ e, (next e).Conforms target ends stage
  | stage, .call (.createTemporary directory) next =>
    stage = .empty ∧ directory = target.directory ∧
      (∀ e, (next (.error e)).Conforms target ends .empty) ∧
      ∀ p, (next (.ok p)).Conforms target ends (.drafted p (.text ""))
  | stage, .call (.write p c) next =>
    (∃ c', stage = .drafted p c') ∧ (next none).Conforms target ends (.drafted p c)
  | stage, .call (.move p path) next =>
    path = target ∧ ∃ c, stage = .drafted p c ∧ (next none).Conforms target ends (.placed c) ∧
      ∀ e, (next (some e)).Conforms target ends stage
  | stage, .call (.discard p) next =>
    (∃ c, stage = .drafted p c) ∧ (next ()).Conforms target ends .empty

variable {ends : Stage → α → Prop} {ends' : Stage → β → Prop} {stage : Stage} {task : Task α}

theorem Conforms.bind {f : α → Task β} (h : task.Conforms target ends stage)
    (hf : ∀ stage a, ends stage a → (f a).Conforms target ends' stage) :
    (task >>= f).Conforms target ends' stage := by
  change (task.bind f).Conforms target ends' stage
  induction task generalizing stage with
  | done a => exact hf stage a h
  | call operation next ih =>
    cases operation with
    | readText | contains | containsDirectory => exact fun answer => ih answer (h answer)
    | makeDirectory => exact ⟨h.1, fun e => ih e (h.2 e)⟩
    | createTemporary =>
      obtain ⟨hs, hd, he, hp⟩ := h
      exact ⟨hs, hd, fun e => ih _ (he e), fun p => ih _ (hp p)⟩
    | write | discard => exact ⟨h.1, ih _ h.2⟩
    | move =>
      obtain ⟨htarget, c, hs, hplaced, he⟩ := h
      exact ⟨htarget, c, hs, ih _ hplaced, fun e => ih _ (he e)⟩

/-- Every operation of such a task leads from one stage to a next. -/
theorem Conforms.step {operation : FileCall} {next : operation.Answer → Task α}
    (h : (Task.call operation next).Conforms target ends stage) (ht : stage.Holds target t) :
    ∃ stage', (next (operation.run.run t).1).Conforms target ends stage' ∧
      stage.Step target t stage' (operation.run.run t).2 := by
  cases operation with
  | readText | contains | containsDirectory => exact ⟨stage, h _, .still _ _⟩
  | makeDirectory path =>
    obtain ⟨⟨n, rfl⟩, hnext⟩ := h
    refine ⟨stage, hnext _, ?_⟩
    change stage.Step target t stage
      (FileCall.settle t (t.makeDirectory (target.directory.take n))).2
    cases hmake : t.makeDirectory (target.directory.take n) with
    | error e => exact .still stage t
    | ok t' => exact .made stage (FileTree.makeDirectory_made hmake)
  | createTemporary directory =>
    obtain ⟨rfl, rfl, he, hp⟩ := h
    simp only [FileCall.run, StateT.run]
    cases hcreate : t.createTemporary target.directory with
    | error e => exact ⟨.empty, he e, .still .empty t⟩
    | ok r =>
      obtain ⟨p, t'⟩ := r
      obtain ⟨hdrafted, k, place, rfl, hplace⟩ := FileTree.createTemporary_ok hcreate
      exact ⟨_, hp _, .drafted hplace hdrafted⟩
  | write p c =>
    obtain ⟨⟨c', rfl⟩, hnext⟩ := h
    exact ⟨_, hnext, .written t p c' c⟩
  | discard p =>
    obtain ⟨⟨c, rfl⟩, hnext⟩ := h
    exact ⟨_, hnext, .discarded t p c⟩
  | move p path =>
    obtain ⟨rfl, c, rfl, hplaced, he⟩ := h
    have hdraft : t.at? p = some (.file c) := FileTree.kind?_file.1 ht.1
    simp only [FileCall.run, StateT.run]
    cases hmove : t.move p path with
    | error e => exact ⟨_, he e, .still _ t⟩
    | ok t' =>
      obtain ⟨place, hplace, hvacant, rfl⟩ := FileTree.move_ok hdraft hmove
      exact ⟨_, hplaced, .placed hplace hvacant⟩

theorem orExisting_conforms (directory : Path) (e : Option IoError) (stage : Stage) :
    (orExisting directory e).Conforms target (fun stage' _ => stage' = stage) stage := by
  cases e with
  | none => rfl
  | some e => exact fun found => rfl

theorem makeDirectories_conforms (n : Nat) (stage : Stage) :
    (makeDirectories target.directory n).Conforms target (fun stage' _ => stage' = stage)
      stage := by
  induction n with
  | zero => rfl
  | succ n ih =>
    refine ⟨⟨n + 1, rfl⟩, fun (e : Option IoError) => ?_⟩
    by_cases he : e = some .notFound
    · subst he
      refine ih.bind fun stage' e hstage => ?_
      subst hstage
      cases e with
      | some e => rfl
      | none => exact ⟨⟨n + 1, rfl⟩, fun e => orExisting_conforms _ e _⟩
    · cases e with
      | none => exact orExisting_conforms (target.directory.take (n + 1)) none stage
      | some e =>
        cases e with
        | notFound => exact absurd rfl he
        | _ => exact orExisting_conforms (target.directory.take (n + 1)) (some _) stage

end Task

namespace TrapFile

variable {f : TrapFile Task} {content : Content} {records : List Record}

/-- A file was started with a draft, or there is none. -/
def Created (target : Path) (compression : Compression) (stage : Stage) :
    Except IoError (TrapFile Task) → Prop
  | .error _ => stage = .empty
  | .ok f => stage = .drafted f.draft (.text "") ∧ f.target = target ∧ f.compression = compression

theorem create_conforms (target : Path) (compression : Compression) :
    (create (m := Task) target compression).Conforms target (Created target compression)
      .empty := by
  refine (Task.makeDirectories_conforms _ .empty).bind fun stage e hstage => ?_
  subst hstage
  cases e with
  | some e => rfl
  | none => exact ⟨rfl, rfl, fun e => rfl, fun p => ⟨rfl, rfl, rfl⟩⟩

/-- The draft was moved into place with what was written, or there is none any more. -/
def Finished (content : Content) (stage : Stage) : Except IoError Unit → Prop
  | .error _ => stage = .empty
  | .ok () => stage = .placed content

theorem finish_conforms (f : TrapFile Task) (records : List Record) :
    (f.finish records).Conforms f.target
      (Finished (.pack f.compression (trapText records))) (.drafted f.draft content) := by
  refine ⟨⟨content, rfl⟩, rfl, _, rfl, rfl, fun e => ?_⟩
  exact ⟨⟨_, rfl⟩, rfl⟩

end TrapFile

namespace TrapUnit

/-- What a unit can be reported as, at each stage. -/
inductive Ends (unit : TrapUnit) (m : Model) (l : Layout) (x : Extractor) : Stage → Report → Prop
  | skipped : Ends unit m l x .empty
      { name := unit.name m, path := l.pathFor (unit.name m), status := .skipped }
  /-- No file could be started, or it could not be finished. -/
  | unwritten (e : IoError) : Ends unit m l x .empty
      (Report.failed x (unit.name m) (l.pathFor (unit.name m)) (.io e)).1
  | unscoped {e : Failure} : unit.scope x m = .error e → Ends unit m l x .empty
      (Report.failed x (unit.name m) (l.pathFor (unit.name m)) e).1
  | placed {extraction : Extraction} {y : Extractor} : unit.extract x m = .ok (extraction, y) →
      Ends unit m l x (.placed (.pack l.compression (trapText extraction.trap)))
        (Report.ofExtraction extraction (l.pathFor (unit.name m)))

theorem extractInto_conforms {f : TrapFile Task} (hf : f.target = unit.target m l)
    (hc : f.compression = l.compression) :
    (unit.extractInto m (l.pathFor (unit.name m)) f x).Conforms (unit.target m l)
      (fun stage r => unit.Ends m l x stage r.1) (.drafted f.draft (.text "")) := by
  unfold extractInto
  cases hx : unit.extract x m with
  | error e => exact ⟨⟨_, rfl⟩, .unscoped (scope_error hx)⟩
  | ok r =>
    obtain ⟨extraction, y⟩ := r
    rw [← hf]
    refine (f.finish_conforms extraction.trap).bind fun stage r hstage => ?_
    cases r with
    | error e =>
      obtain rfl : stage = .empty := hstage
      exact .unwritten e
    | ok _ =>
      obtain rfl : stage = .placed _ := hstage
      rw [hc]
      exact .placed hx

section

-- What a path is made of does not matter here.
attribute [local irreducible] Path.ofString

theorem deliver_conforms (unit : TrapUnit) (m : Model) (l : Layout) (overwrite : Bool)
    (x : Extractor) :
    (unit.deliver (m := Task) m l overwrite x).Conforms (unit.target m l)
      (fun stage r => unit.Ends m l x stage r.1) .empty := by
  intro (found : Bool)
  change Task.Conforms _ _ _ (if (!overwrite && found) = true then _ else _)
  split
  · exact .skipped
  · refine Task.Conforms.bind (TrapFile.create_conforms _ _) fun stage r hstage => ?_
    cases r with
    | error e =>
      obtain rfl : stage = .empty := hstage
      exact .unwritten e
    | ok f =>
      obtain ⟨rfl, htarget, hcompression⟩ := hstage
      exact extractInto_conforms htarget hcompression

end

/-- What a unit does in a pool, and what it is reported as. -/
theorem deliveryTask_conforms (unit : TrapUnit) (m : Model) (l : Layout) (overwrite : Bool)
    (x : Extractor) : (unit.deliveryTask m l overwrite x).Conforms (unit.target m l)
      (unit.Ends m l x) .empty :=
  (unit.deliver_conforms m l overwrite x).bind fun _ _ h => h

/-- First of all a unit asks for its target. If something is there that must stay, that is all. -/
theorem deliveryTask_eq (unit : TrapUnit) (m : Model) (l : Layout) (overwrite : Bool)
    (x : Extractor) : ∃ next : Bool → Task Report,
      unit.deliveryTask m l overwrite x = .call (.contains (unit.target m l)) next ∧
        (overwrite = false → next true = .done
          { name := unit.name m, path := l.pathFor (unit.name m), status := .skipped }) := by
  refine ⟨_, rfl, ?_⟩
  rintro rfl
  rfl

end TrapUnit

end TrapFacts
