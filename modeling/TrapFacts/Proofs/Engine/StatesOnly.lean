import TrapFacts.Proofs.Engine.Reply

/-! Which facts are stated about a label: programs that state facts about their own labels alone,
and what a run of one adds. -/

namespace TrapFacts

variable {α β : Type} {cx cx₁ cx' : Context} {e : Event} {en : Entity} {l : Label} {slot : Slot}
  {mine mine' : Label → Prop}

/-- A fact says something of the label that stands first, and of the one that stands last if it is
about a parameter. What the arguments of a type are is not for one alone to say. -/
def Tuple.Concerns (t : Tuple) (l : Label) : Prop :=
  t.relation ≠ "type_arguments" ∧ (t.args.head? = some (.label l) ∨
    t.relation = "params" ∧ t.args.getLast? = some (.label l))

instance (t : Tuple) (l : Label) : Decidable (t.Concerns l) :=
  inferInstanceAs (Decidable (_ ∧ (_ ∨ _ ∧ _)))

def Record.fact? : Record → Option Tuple
  | .tuple t => some t
  | _ => none

def Event.fact? (e : Event) : Option Tuple :=
  e.record?.bind Record.fact?

namespace Context

/-- What the trap says of a label so far. -/
def factsAbout (cx : Context) (l : Label) : List Tuple :=
  (cx.trap.filterMap Record.fact?).filter (·.Concerns l)

/-- Nothing is said of a label that was not given away. -/
def FactsBehind (cx : Context) : Prop :=
  ∀ l, cx.labels < l.number → cx.factsAbout l = []

/-- The facts about a label are those of the trap that concern it. -/
theorem mem_factsAbout {t : Tuple} : t ∈ cx.factsAbout l ↔ .tuple t ∈ cx.trap ∧ t.Concerns l := by
  rw [factsAbout, List.mem_filter, decide_eq_true_eq, List.mem_filterMap]
  refine and_congr_left fun _ => ⟨?_, fun h => ⟨_, h, rfl⟩⟩
  rintro ⟨r, hr, ht⟩
  cases r with
  | tuple t' => exact Option.some.inj ht ▸ hr
  | _ => cases ht

theorem factsAbout_event (he : cx'.events = cx.events ++ [e]) (l : Label) :
    cx'.factsAbout l = cx.factsAbout l ++ e.fact?.toList.filter (·.Concerns l) := by
  rw [factsAbout, factsAbout, trap_event he, List.filterMap_append, List.filter_append, Event.fact?]
  cases e.record? with
  | none => rfl
  | some r => cases r <;> rfl

theorem factsAbout_still (he : cx'.events = cx.events) (l : Label) :
    cx'.factsAbout l = cx.factsAbout l := by
  rw [factsAbout, trap_eq, he, ← trap_eq, factsAbout]

/-- An event that says nothing of a label. -/
theorem factsAbout_apart (he : cx'.events = cx.events ++ [e])
    (ha : ∀ t, e.fact? = some t → ¬ t.Concerns l) : cx'.factsAbout l = cx.factsAbout l := by
  rw [factsAbout_event he]
  cases hf : e.fact? with
  | none => simp
  | some t => simp [ha t hf]

theorem factsAbout_quiet (he : cx'.events = cx.events ++ [e]) (hf : e.fact? = none) (l : Label) :
    cx'.factsAbout l = cx.factsAbout l :=
  factsAbout_apart he (by simp [hf])

theorem factsAbout_introduce (cx : Context) (slot : Slot) (en : Entity) (l : Label) :
    (cx.introduce slot en).2.factsAbout l = cx.factsAbout l := by
  rw [factsAbout, trap_introduce, List.filterMap_append, List.filter_append, factsAbout]
  exact List.append_nil _

theorem factsAbout_fact {t : Tuple} (ht : t.Concerns l) :
    (cx.write (.tuple t)).factsAbout l = cx.factsAbout l ++ [t] := by
  rw [factsAbout_event (cx.events_write _)]
  simp [Event.fact?, Event.record?, Record.fact?, ht]

end Context

namespace Prog

/-- A program that states facts about given labels alone, and about those that it takes for itself.
It opens no guards, and it neither queues nor drains. -/
def StatesOnly {α : Type} : Prog α → (mine : Label → Prop) → Prop
  | .pure _, _ => True
  | .fail _, _ => True
  | .fresh k, mine => ∀ l, (k l).StatesOnly fun l' => l' = l ∨ mine l'
  | .define _ _, _ => False
  | .emit t k, mine => (∀ l, t.Concerns l → mine l) ∧ k.StatesOnly mine
  | .send _ _, _ => False
  | .modelError _ _ k, mine => k.StatesOnly mine
  | .missingType _ k, mine => k.StatesOnly mine
  | .setAssemblyFile _ _ k, mine => k.StatesOnly mine
  | .assemblyFile _ k, mine => ∀ file, (k file).StatesOnly mine
  | .openGenerics _ k, mine => ∀ new, (k new).StatesOnly mine
  | .snapshot k, mine => ∀ s, (k s).StatesOnly mine
  | .note _ k, mine => k.StatesOnly mine
  | .guarded _ _ _, _ => False
  | .attempt _ _ body k, mine => body.StatesOnly mine ∧ k.StatesOnly mine
  | .catch _ _, _ => False
  | .later _ _, _ => False
  | .drain _, _ => False
  | .create _ _ _ _, _ => False
  | .summon _ k, mine => ∀ c, (k c).StatesOnly mine

abbrev Factless (p : Prog α) : Prop :=
  p.StatesOnly fun _ => False

namespace StatesOnly

variable {p : Prog α}

theorem mono (h : p.StatesOnly mine) (hm : ∀ l, mine l → mine' l) : p.StatesOnly mine' := by
  induction p generalizing mine mine' with
  | pure | fail => trivial
  | fresh _ ih => exact fun l => ih l (h l) fun l' => Or.imp_right (hm l')
  | emit _ _ ih => exact ⟨fun l hl => hm l (h.1 l hl), ih h.2 hm⟩
  | modelError _ _ _ ih | missingType _ _ ih | setAssemblyFile _ _ _ ih | note _ _ ih =>
    exact ih h hm
  | assemblyFile _ _ ih | openGenerics _ _ ih | snapshot _ ih | summon _ _ ih =>
    exact fun a => ih a (h a) hm
  | attempt _ _ _ _ ihb ih => exact ⟨ihb h.1 hm, ih h.2 hm⟩
  | define | send | guarded | «catch» | later | drain | create => exact h.elim

theorem bind {f : α → Prog β} (h : p.StatesOnly mine) (hf : ∀ a, (f a).StatesOnly mine) :
    (p.bind f).StatesOnly mine := by
  induction p generalizing mine with
  | pure a => exact hf a
  | fail => trivial
  | fresh _ ih => exact fun l => ih l (h l) fun a => (hf a).mono fun _ => .inr
  | emit _ _ ih | attempt _ _ _ _ _ ih => exact ⟨h.1, ih h.2 hf⟩
  | modelError _ _ _ ih | missingType _ _ ih | setAssemblyFile _ _ _ ih | note _ _ ih =>
    exact ih h hf
  | assemblyFile _ _ ih | openGenerics _ _ ih | snapshot _ ih | summon _ _ ih =>
    exact fun a => ih a (h a) hf
  | define | send | guarded | «catch» | later | drain | create => exact h.elim

theorem read {r : Except Failure β} {f : β → Prog α} (h : ∀ b, r = .ok b → (f b).StatesOnly mine) :
    ((Prog.ofExcept r).bind f).StatesOnly mine := by
  cases r with
  | ok b => exact h b rfl
  | error => trivial

theorem each {items : List β} {body : β → Prog Unit} (h : ∀ b ∈ items, (body b).StatesOnly mine) :
    (Prog.each items body).StatesOnly mine := by
  induction items with
  | nil => trivial
  | cons b items ih =>
    exact (h b List.mem_cons_self).bind fun _ => ih fun b hb => h b (List.mem_cons_of_mem _ hb)

theorem collect {items : List β} {body : β → Prog α} (h : ∀ b ∈ items, (body b).StatesOnly mine) :
    (Prog.collect items body).StatesOnly mine := by
  induction items with
  | nil => trivial
  | cons b items ih =>
    refine (h b List.mem_cons_self).bind fun a => ?_
    exact (ih fun b hb => h b (List.mem_cons_of_mem _ hb)).bind fun _ => trivial

end StatesOnly

end Prog

/-- What is to be true of an entity under its label once it was described, what factories are to
make, and how they may fail. -/
structure DescriptionSpec where
  shows : Entity → Label → Context → Prop
  yields : Recipe → Entity → Context → Prop
  fails : Recipe → Failure → Prop
  /-- What is shown stays, unless more is said of the label. -/
  lasting : ∀ {en l cx cx'}, shows en l cx → cx.events <+: cx'.events →
    cx'.factsAbout l = cx.factsAbout l → shows en l cx'
  yielded : ∀ {recipe en cx cx'}, yields recipe en cx → cx.events <+: cx'.events →
    yields recipe en cx'
  /-- Nothing is asked of what is not described. -/
  idle : ∀ {en l cx}, en.needsPopulation = false → shows en l cx

/-- An entity is shown, or waits to be described, and nothing is said of it yet. -/
def DescriptionSpec.Sure (P : DescriptionSpec) (en : Entity) (l : Label) (cx : Context) : Prop :=
  P.shows en l cx ∨ (en, l) ∈ cx.dues ∧ cx.factsAbout l = []

variable {desc : Entity → Label → Prog Unit} {P : DescriptionSpec} {b : Bool}

/-- What joined the queue: descriptions of new entities, each of another one, of which nothing is
said yet. -/
structure Joined (desc : Entity → Label → Prog Unit) (low : Nat) (cx : Context)
    (more : List Pending) : Prop where
  work : ∀ a ∈ more, ∃ en l, a.work = .population en l (desc en l) ∧ low < l.number ∧
    l.number ≤ cx.labels ∧ cx.factsAbout l = []
  distinct : ((more.flatMap (·.work.dues)).map Prod.snd).Nodup

/-- What a run adds. Of labels from before, only those of its own are spoken of. New entities are
shown or wait, unless the run ended in a fatal failure. -/
structure Adds (desc : Entity → Label → Prog Unit) (P : DescriptionSpec) (mine : Label → Prop)
    (b : Bool)
    (cx cx' : Context) : Prop where
  labels : cx.labels ≤ cx'.labels
  events : cx.events <+: cx'.events
  factsBehind : cx'.FactsBehind
  kept : ∀ l, l.number ≤ cx.labels → ¬ mine l → cx'.factsAbout l = cx.factsAbout l
  queue : ∃ more, cx'.queue = cx.queue ++ more ∧ Joined desc cx.labels cx' more
  made : b = false → ∀ slot en l, .created slot ⟨l, en⟩ ∈ cx'.events →
    .created slot ⟨l, en⟩ ∈ cx.events ∨
      cx.labels < l.number ∧ l.number ≤ cx'.labels ∧ P.Sure en l cx'

theorem Joined.nil {low : Nat} : Joined desc low cx [] :=
  ⟨by simp, .nil⟩

theorem Joined.lower {low low' : Nat} {more : List Pending} (hlow : low ≤ low')
    (h : Joined desc low' cx more) : Joined desc low cx more := by
  refine ⟨fun a ha => ?_, h.distinct⟩
  obtain ⟨en, l, hw, hl, hrest⟩ := h.work a ha
  exact ⟨en, l, hw, Nat.lt_of_le_of_lt hlow hl, hrest⟩

/-- Work that joins the queue, and more that joins later. -/
theorem Joined.append {low : Nat} {more more' : List Pending} (h : Joined desc low cx₁ more)
    (h' : Joined desc cx₁.labels cx' more') (hlow : low ≤ cx₁.labels)
    (hhigh : cx₁.labels ≤ cx'.labels)
    (hkept : ∀ d ∈ more.flatMap (·.work.dues), low < d.2.number → d.2.number ≤ cx₁.labels →
      cx'.factsAbout d.2 = cx₁.factsAbout d.2) : Joined desc low cx' (more ++ more') where
  work a ha := by
    rcases List.mem_append.1 ha with ha | ha
    · obtain ⟨en, l, hw, hl, hl', hfacts⟩ := h.work a ha
      have hdue : (en, l) ∈ more.flatMap (·.work.dues) :=
        List.mem_flatMap.2 ⟨a, ha, by simp [hw, Work.dues]⟩
      exact ⟨en, l, hw, hl, Nat.le_trans hl' hhigh, (hkept _ hdue hl hl').trans hfacts⟩
    · exact (h'.lower hlow).work a ha
  distinct := by
    rw [List.flatMap_append, List.map_append, List.nodup_append]
    refine ⟨h.distinct, h'.distinct, ?_⟩
    intro l hl l' hl' heq
    obtain ⟨d, hd, rfl⟩ := List.mem_map.1 hl
    obtain ⟨d', hd', rfl⟩ := List.mem_map.1 hl'
    obtain ⟨a, ha, hd⟩ := List.mem_flatMap.1 hd
    obtain ⟨a', ha', hd'⟩ := List.mem_flatMap.1 hd'
    obtain ⟨en, l, hw, -, hle, -⟩ := h.work a ha
    obtain ⟨en', l', hw', hlt, -⟩ := h'.work a' ha'
    rw [hw, Work.dues, List.mem_singleton] at hd
    rw [hw', Work.dues, List.mem_singleton] at hd'
    subst hd hd'
    have hnumber : l.number = l'.number := congrArg Label.number heq
    omega

theorem DescriptionSpec.Sure.along {more : List Pending} (h : P.Sure en l cx)
    (he : cx.events <+: cx'.events) (hs : cx'.factsAbout l = cx.factsAbout l)
    (hq : cx'.queue = cx.queue ++ more) : P.Sure en l cx' := by
  rcases h with hshows | ⟨hdue, hfacts⟩
  · exact .inl (P.lasting hshows he hs)
  · refine .inr ⟨?_, hs.trans hfacts⟩
    rw [Context.dues, hq, List.flatMap_append]
    exact List.mem_append_left _ hdue

namespace Adds

theorem refl (hs : cx.FactsBehind) : Adds desc P mine b cx cx where
  labels := Nat.le_refl _
  events := List.prefix_rfl
  factsBehind := hs
  kept _ _ _ := rfl
  queue := ⟨[], by simp, .nil⟩
  made _ _ _ _ hc := .inl hc

theorem mono (h : Adds desc P mine b cx cx') (hm : ∀ l, mine l → mine' l) :
    Adds desc P mine' b cx cx' :=
  { h with kept := fun l hl hn => h.kept l hl (mt (hm l) hn) }

/-- One run after another. If the first ended in a fatal failure, so did both. -/
theorem join {b' : Bool} (hm : ∀ l, mine l → l.number ≤ cx.labels) (hb : b = false → b' = false)
    (h : Adds desc P mine b' cx cx₁) (h' : Adds desc P mine b cx₁ cx') :
    Adds desc P mine b cx cx' where
  labels := Nat.le_trans h.labels h'.labels
  events := h.events.trans h'.events
  factsBehind := h'.factsBehind
  kept l hl hn := (h'.kept l (Nat.le_trans hl h.labels) hn).trans (h.kept l hl hn)
  queue := by
    obtain ⟨more, hq, hj⟩ := h.queue
    obtain ⟨more', hq', hj'⟩ := h'.queue
    refine ⟨more ++ more', by rw [hq', hq, List.append_assoc], hj.append hj' h.labels h'.labels ?_⟩
    intro d _ hlow hhigh
    refine h'.kept d.2 hhigh fun hl => ?_
    have := hm d.2 hl
    omega
  made hnone slot en l hc := by
    rcases h'.made hnone slot en l hc with hc | ⟨hlow, hhigh, hsure⟩
    · rcases h.made (hb hnone) slot en l hc with hc | ⟨hlow, hhigh, hsure⟩
      · exact .inl hc
      · obtain ⟨more, hq, -⟩ := h'.queue
        have hnot : ¬ mine l := fun hl => by
          have := hm l hl
          omega
        exact .inr ⟨hlow, Nat.le_trans hhigh h'.labels,
          hsure.along h'.events (h'.kept l hhigh hnot) hq⟩
    · exact .inr ⟨Nat.lt_of_le_of_lt h.labels hlow, hhigh, hsure⟩

/-- What is added first and what is added then, if the first part did not fail. -/
theorem trans (hm : ∀ l, mine l → l.number ≤ cx.labels) (h : Adds desc P mine false cx cx₁)
    (h' : Adds desc P mine b cx₁ cx') : Adds desc P mine b cx cx' :=
  h.join hm (fun _ => rfl) h'

/-- One more event, which creates no entity, and says nothing of the labels of others. -/
theorem event (hs : cx.FactsBehind) (hm : ∀ l, mine l → l.number ≤ cx.labels)
    (he : cx'.events = cx.events ++ [e]) (hl : cx.labels ≤ cx'.labels)
    (hq : cx'.queue = cx.queue) (hc : ∀ slot c, e ≠ .created slot c)
    (hf : ∀ t, e.fact? = some t → ∀ l, t.Concerns l → mine l) : Adds desc P mine b cx cx' where
  labels := hl
  events := ⟨[e], he.symm⟩
  factsBehind l hlow := by
    have hnot : ¬ mine l := fun hmine => by
      have := hm l hmine
      omega
    rw [Context.factsAbout_apart he fun t ht hl => hnot (hf t ht l hl)]
    exact hs l (by omega)
  kept l _ hn := Context.factsAbout_apart he fun t ht hl => hn (hf t ht l hl)
  queue := ⟨[], by rw [hq, List.append_nil], .nil⟩
  made _ slot en l hcreated := by
    rw [he, List.mem_append, List.mem_singleton] at hcreated
    rcases hcreated with hcreated | hcreated
    · exact .inl hcreated
    · exact absurd hcreated.symm (hc slot _)

theorem quiet (hs : cx.FactsBehind) (he : cx'.events = cx.events ++ [e])
    (hl : cx'.labels = cx.labels)
    (hq : cx'.queue = cx.queue) (hc : ∀ slot c, e ≠ .created slot c) (hf : e.fact? = none) :
    Adds desc P mine b cx cx' := by
  have hmute : Adds desc P (fun _ => False) b cx cx' :=
    .event hs (by simp) he (Nat.le_of_eq hl.symm) hq hc (by simp [hf])
  exact hmute.mono (by simp)

/-- A label that a program takes for itself was nobody's before. -/
theorem fresh (h : Adds desc P (fun l => l = cx.nextLabel ∨ mine l) b
    (cx.allocate.write (.fresh cx.nextLabel)) cx') : Adds desc P mine b cx cx' := by
  have he := cx.allocate.events_write (.fresh cx.nextLabel)
  have hlabels : cx.labels + 1 ≤ cx'.labels := h.labels
  refine {
    labels := by omega
    events := List.IsPrefix.trans ⟨_, he.symm⟩ h.events
    factsBehind := h.factsBehind
    kept := fun l hl hn => ?_
    queue := ?_
    made := fun hb slot en l hc => ?_ }
  · have hne : l ≠ cx.nextLabel := by
      rintro rfl
      exact Nat.not_succ_le_self _ hl
    rw [h.kept l (Nat.le_succ_of_le hl) (not_or.2 ⟨hne, hn⟩)]
    exact Context.factsAbout_quiet he rfl l
  · obtain ⟨more, hq, hj⟩ := h.queue
    exact ⟨more, hq, hj.lower (Nat.le_succ _)⟩
  · rcases h.made hb slot en l hc with hc | ⟨hlow, hhigh, hsure⟩
    · refine .inl ?_
      rw [he, List.mem_append, List.mem_singleton] at hc
      rcases hc with hc | hc
      · exact hc
      · cases hc
    · have hlow : cx.labels + 1 < l.number := hlow
      exact .inr ⟨by omega, hhigh, hsure⟩

/-- A change of what no event tells of. -/
theorem still (hs : cx.FactsBehind) (he : cx'.events = cx.events) (hl : cx'.labels = cx.labels)
    (hq : cx'.queue = cx.queue) : Adds desc P mine b cx cx' where
  labels := Nat.le_of_eq hl.symm
  events := ⟨[], by rw [he, List.append_nil]⟩
  factsBehind l hlow := (Context.factsAbout_still he l).trans (hs l (hl ▸ hlow))
  kept l _ _ := Context.factsAbout_still he l
  queue := ⟨[], by rw [hq, List.append_nil], .nil⟩
  made _ _ _ _ hc := .inl (he ▸ hc)

end Adds

end TrapFacts
