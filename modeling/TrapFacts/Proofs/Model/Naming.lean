import Mathlib
import TrapFacts.Model.DisplayName

/-! Display names end, and close circles exactly. Where there is no circle, they are plain names. -/

namespace TrapFacts

open Relation (ReflTransGen TransGen)

variable {m : Model} {s : Symbol} {id a b : SymbolId} {path : List SymbolId} {α β : Type}

def Symbol.pointee? (s : Symbol) : Option SymbolId :=
  if s.kind = .pointer then s.pointedAt else none

/-- The name of a symbol behind that of its owner. -/
def Symbol.qualify (s : Symbol) : Option String → String
  | some owner => owner ++ "." ++ s.name
  | none => s.name

/-- The name of a symbol, given the names of its owner, its pointee and its type arguments. -/
def Symbol.spell (s : Symbol) (owner pointee : Option String) (arguments : List String) : String :=
  let shape := match pointee with
    | some pointee => pointee ++ "*"
    | none => s.qualify owner
  if arguments.isEmpty then shape else shape ++ "<" ++ ", ".intercalate arguments ++ ">"

namespace Model

/-- The symbol whose name stands in front: the container, else the namespace unless it is the global
one. -/
def owner? (m : Model) (s : Symbol) : Option SymbolId :=
  s.containingType.or (s.containingNamespace.filter fun ns =>
    !(m.symbols[ns.index]?.map Symbol.isGlobalNamespace).getD false)

/-- The symbols that are shown on the way to a symbol's name. The owner of a pointer is shown, too,
but left out. -/
def branches (m : Model) (s : Symbol) : List SymbolId :=
  (m.owner? s).toList ++ s.pointee?.toList ++ s.typeArguments

/-- The name of `b` is asked for to name `a`. -/
def Branch (m : Model) (a b : SymbolId) : Prop :=
  ∃ s, m.symbols[a.index]? = some s ∧ b ∈ m.branches s

/-- From the symbol, no symbol can be reached that comes back to itself. -/
def NoCircle (m : Model) (id : SymbolId) : Prop :=
  ∀ a, ReflTransGen m.Branch id a → ¬ TransGen m.Branch a a

/-- The plain qualified name of a symbol, given those of others. -/
def plainName (m : Model) (name : SymbolId → String) (id : SymbolId) : String :=
  match m.symbols[id.index]? with
  | none => id.text
  | some s => s.spell ((m.owner? s).map name) (s.pointee?.map name) (s.typeArguments.map name)

theorem displayNameOn_of_mem (h : id ∈ path) : m.displayNameOn id path = id.text := by
  unfold displayNameOn
  rw [dif_pos h]

theorem qualify_eq (m : Model) (s : Symbol) (name : SymbolId → String) :
    (match s.containingType, s.containingNamespace with
      | some parent, _ => name parent ++ "." ++ s.name
      | none, some ns =>
        if (m.symbols[ns.index]?.map Symbol.isGlobalNamespace).getD false then s.name
        else name ns ++ "." ++ s.name
      | none, none => s.name) = s.qualify ((m.owner? s).map name) := by
  unfold owner?
  cases s.containingType with
  | some parent => rfl
  | none =>
    cases s.containingNamespace with
    | none => rfl
    | some ns =>
      by_cases hglobal : (m.symbols[ns.index]?.map Symbol.isGlobalNamespace).getD false
      · simp [hglobal, Symbol.qualify, Option.filter]
      · simp [hglobal, Symbol.qualify, Option.filter]

theorem spell_eq (s : Symbol) (name : SymbolId → String) {owner : Option String}
    {qualified : String} (h : qualified = s.qualify owner) :
    (let shape :=
      match s.kind, s.pointedAt with
      | .pointer, some pointee => name pointee ++ "*"
      | _, _ => qualified
    if s.typeArguments.isEmpty then shape
    else shape ++ "<" ++ ", ".intercalate (s.typeArguments.map fun a => name a) ++ ">") =
      s.spell owner (s.pointee?.map name) (s.typeArguments.map name) := by
  have hempty : (s.typeArguments.map name).isEmpty = s.typeArguments.isEmpty := by
    cases s.typeArguments <;> rfl
  unfold Symbol.spell Symbol.pointee?
  rw [hempty, h]
  cases s.pointedAt with
  | none => cases s.kind <;> rfl
  | some pointee => cases s.kind <;> rfl

/-- Off the path, a display name is put together as a plain one. -/
theorem displayNameOn_of_notMem (h : id ∉ path) :
    m.displayNameOn id path = m.plainName (m.displayNameOn · (id :: path)) id := by
  rw [displayNameOn, dif_neg h, plainName]
  by_cases hin : id.index < m.symbols.length
  · rw [dif_pos hin, List.getElem?_eq_getElem hin]
    exact spell_eq _ (m.displayNameOn · (id :: path)) (qualify_eq m _ _)
  · rw [dif_neg hin, List.getElem?_eq_none (Nat.le_of_not_lt hin)]

theorem Branch.lt_length (h : m.Branch a b) : a.index < m.symbols.length := by
  obtain ⟨s, hs, -⟩ := h
  exact (List.getElem?_eq_some_iff.1 hs).1

theorem plainName_congr {name name' : SymbolId → String}
    (h : ∀ b, m.Branch id b → name b = name' b) : m.plainName name id = m.plainName name' id := by
  unfold plainName
  cases hs : m.symbols[id.index]? with
  | none => rfl
  | some s =>
    have hbranch : ∀ b ∈ m.branches s, name b = name' b := by
      intro b hb
      exact h b ⟨s, hs, hb⟩
    have howner : (m.owner? s).map name = (m.owner? s).map name' := by
      apply Option.map_congr
      intro b hb
      exact hbranch b (by simp [branches, hb])
    have hpointee : s.pointee?.map name = s.pointee?.map name' := by
      apply Option.map_congr
      intro b hb
      exact hbranch b (by simp [branches, hb])
    have harguments : s.typeArguments.map name = s.typeArguments.map name' := by
      apply List.map_congr_left
      intro b hb
      exact hbranch b (by simp [branches, hb])
    simp only [howner, hpointee, harguments]

/-- What is reached from a symbol without circles has none. -/
theorem NoCircle.reach (h : m.NoCircle a) (hb : ReflTransGen m.Branch a b) : m.NoCircle b := by
  intro c hc
  exact h c (hb.trans hc)

/-- There is no circle among symbols whose branches are of lower rank. -/
theorem noCircle_of_rank (among : SymbolId → Prop) (rank : SymbolId → Nat) (hid : among id)
    (h : ∀ a s, among a → m.symbols[a.index]? = some s →
      ∀ b ∈ m.branches s, among b ∧ rank b < rank a) : m.NoCircle id := by
  have hstep : ∀ a b, among a → m.Branch a b → among b ∧ rank b < rank a := by
    rintro a b ha ⟨s, hs, hb⟩
    exact h a s ha hs b hb
  intro a hreach
  have ha : among a := by
    induction hreach with
    | refl => exact hid
    | tail _ hb ih => exact (hstep _ _ ih hb).1
  have hdown : ∀ b, TransGen m.Branch a b → among b ∧ rank b < rank a := by
    intro b hb
    induction hb with
    | single hb => exact hstep _ _ ha hb
    | tail _ hb ih =>
      have hnext := hstep _ _ ih.1 hb
      exact ⟨hnext.1, Nat.lt_trans hnext.2 ih.2⟩
  intro hcircle
  exact Nat.lt_irrefl _ (hdown a hcircle).2

/-- The symbols on the path are on the way to the symbol. -/
def LeadsTo (m : Model) (path : List SymbolId) (id : SymbolId) : Prop :=
  ∀ p ∈ path, TransGen m.Branch p id

theorem leadsTo_nil (m : Model) (id : SymbolId) : m.LeadsTo [] id := by
  intro p hp
  cases hp

theorem LeadsTo.branch (h : m.LeadsTo path a) (hb : m.Branch a b) : m.LeadsTo (a :: path) b := by
  intro p hp
  rcases List.mem_cons.1 hp with rfl | hp
  · exact .single hb
  · exact (h p hp).tail hb

/-- A path does not come back to a symbol that no circle closes at. -/
theorem LeadsTo.notMem (h : m.LeadsTo path id) (hfree : m.NoCircle id) : id ∉ path := by
  intro hmem
  exact hfree id .refl (h id hmem)

/-- Where there is no circle, whatever puts names together as plain ones names a symbol as its
display name does, on any path that leads there. -/
theorem displayNameOn_eq_of_plain (name : SymbolId → List SymbolId → String) (h : m.NoCircle a)
    (hname : ∀ id path, ReflTransGen m.Branch a id → m.LeadsTo path id →
      name id path = m.plainName (name · (id :: path)) id)
    (hid : ReflTransGen m.Branch a id) (hpath : m.LeadsTo path id) {path' : List SymbolId}
    (hpath' : m.LeadsTo path' id) : m.displayNameOn id path = name id path' := by
  generalize hsize : (m.offPath path).length = size
  induction size using Nat.strongRecOn generalizing id path path' with
  | ind size ih =>
    have hmem := hpath.notMem (h.reach hid)
    rw [displayNameOn_of_notMem hmem, hname id path' hid hpath']
    apply plainName_congr
    intro b hb
    have hless : (m.offPath (id :: path)).length < size :=
      hsize ▸ offPath_cons_lt hmem hb.lt_length
    exact ih _ hless (hid.tail hb) (hpath.branch hb) (hpath'.branch hb) rfl

/-- Where there is no circle, a display name is a plain name, made of such names. -/
theorem displayName_plain (h : m.NoCircle a) (hid : ReflTransGen m.Branch a id) :
    m.displayName id = m.plainName m.displayName id := by
  have hplain : ∀ id path, ReflTransGen m.Branch a id → m.LeadsTo path id →
      m.displayNameOn id path = m.plainName (m.displayNameOn · (id :: path)) id := by
    intro id path hid hpath
    exact displayNameOn_of_notMem (hpath.notMem (h.reach hid))
  rw [displayName, hplain id [] hid (leadsTo_nil m id)]
  apply plainName_congr
  intro b hb
  exact displayNameOn_eq_of_plain m.displayNameOn h hplain (hid.tail hb)
    ((leadsTo_nil m id).branch hb) (leadsTo_nil m b)

/-- There is no other way to put plain names together. -/
theorem displayName_unique {name : SymbolId → String} (h : m.NoCircle id)
    (hname : ∀ a, ReflTransGen m.Branch id a → name a = m.plainName name a) :
    m.displayName id = name id := by
  apply displayNameOn_eq_of_plain (fun a _ => name a) h
  · intro a path ha hpath
    exact hname a ha
  · exact .refl
  · exact leadsTo_nil m id
  · exact leadsTo_nil m id

/-! The recursion, call by call, on a path that all calls share. -/

/-- What became of a call, with the path that it met: the symbol was shown by its number, or its
name was put together from what further calls gave. -/
inductive Call where
  | numbered (id : SymbolId) (path : List SymbolId)
  | spelled (id : SymbolId) (path : List SymbolId) (text : String) (calls : List Call)

namespace Call

def symbol : Call → SymbolId
  | numbered id _ => id
  | spelled id _ _ _ => id

/-- What a call shows it as. -/
def text : Call → String
  | numbered id _ => id.text
  | spelled _ _ text _ => text

end Call

/-- Show a symbol, by calls nested no deeper than there is room for. All calls share one path: each
puts its symbol on it, and takes it off again when the name is done. -/
def walk (m : Model) : (room : Nat) → SymbolId → StateT (List SymbolId) Option Call
  | 0, _ => failure
  | room + 1, id => do
    let path ← get
    if id ∈ path then return .numbered id path
    match m.symbols[id.index]? with
    | none => return .numbered id path
    | some s =>
      modify (id :: ·)
      let owner ← (m.owner? s).mapM (m.walk room)
      let pointee ← s.pointee?.mapM (m.walk room)
      let arguments ← s.typeArguments.mapM (m.walk room)
      modify List.tail
      let text := s.spell (owner.map Call.text) (pointee.map Call.text) (arguments.map Call.text)
      return .spelled id path text (owner.toList ++ pointee.toList ++ arguments)

/-- What a path is at any time: symbols of the table, each once, so no more than there are. -/
structure Simple (m : Model) (path : List SymbolId) : Prop where
  nodup : path.Nodup
  known : ∀ p ∈ path, p.index < m.symbols.length
  length_le : path.length ≤ m.symbols.length

/-- What calls come to on a path. A symbol is shown by its number exactly if it is unknown or on the
path. Else each of its branches is shown, on the path with the symbol on it, and its name is made of
theirs. -/
inductive Exact (m : Model) : List SymbolId → Call → Prop
  | numbered {path : List SymbolId} {id : SymbolId} : m.Simple path →
    m.symbols.length ≤ id.index ∨ id ∈ path → Exact m path (.numbered id path)
  | spelled {path : List SymbolId} {id : SymbolId} {s : Symbol} {calls : List Call}
    {name : SymbolId → String} : m.Simple path → m.symbols[id.index]? = some s → id ∉ path →
    calls.map Call.symbol = m.branches s → (∀ call ∈ calls, call.text = name call.symbol) →
    (∀ call ∈ calls, Exact m (id :: path) call) →
    Exact m path (.spelled id path (m.plainName name id) calls)

/-- Different symbols of a model are no more than its table is long. -/
theorem length_le_of_nodup {ids : List SymbolId} (hn : ids.Nodup)
    (h : ∀ a ∈ ids, ∃ s, m.symbol a = .ok s) : ids.length ≤ m.symbols.length := by
  have hsub : ids ⊆ (List.range m.symbols.length).map SymbolId.mk := by
    intro a ha
    obtain ⟨s, hs⟩ := h a ha
    refine List.mem_map.2 ⟨a.index, List.mem_range.2 ?_, rfl⟩
    by_contra hout
    rw [symbol, List.getElem?_eq_none (Nat.le_of_not_lt hout)] at hs
    cases hs
  simpa using (List.Nodup.subperm hn hsub).length_le

theorem simple_nil (m : Model) : m.Simple [] := by
  refine ⟨.nil, ?_, Nat.zero_le _⟩
  intro p hp
  cases hp

theorem Simple.cons (h : m.Simple path) (hmem : id ∉ path) (hin : id.index < m.symbols.length) :
    m.Simple (id :: path) := by
  have hnodup : (id :: path).Nodup := List.nodup_cons.2 ⟨hmem, h.nodup⟩
  have hknown : ∀ p ∈ id :: path, p.index < m.symbols.length := by
    intro p hp
    rcases List.mem_cons.1 hp with rfl | hp
    · exact hin
    · exact h.known p hp
  refine ⟨hnodup, hknown, length_le_of_nodup hnodup ?_⟩
  intro p hp
  rw [symbol, List.getElem?_eq_getElem (hknown p hp)]
  exact ⟨_, rfl⟩

/-- The path is given back after each of the ids. -/
theorem mapM_run {f : SymbolId → StateT (List SymbolId) Option α} {g : SymbolId → α}
    (h : ∀ a, (f a).run path = some (g a, path)) (ids : List SymbolId) :
    (ids.mapM f).run path = some (ids.map g, path) := by
  induction ids with
  | nil => rfl
  | cons a ids ih => simp [List.mapM_cons, h, ih]

theorem option_mapM_run {f : SymbolId → StateT (List SymbolId) Option α} {g : SymbolId → α}
    (h : ∀ a, (f a).run path = some (g a, path)) (id : Option SymbolId) :
    (id.mapM f).run path = some (id.map g, path) := by
  cases id with
  | none => rfl
  | some a => simp [Option.mapM, h]

/-- Where there is room for the symbols off the path, a call gives the display name, and leaves the
path as it was. -/
theorem walk_run (room : Nat) (hroom : (m.offPath path).length < room) (h : m.Simple path) :
    ∃ call : Call, call.symbol = id ∧ call.text = m.displayNameOn id path ∧ m.Exact path call ∧
      (m.walk room id).run path = some (call, path) := by
  induction room generalizing id path with
  | zero => omega
  | succ room ih =>
    by_cases hmem : id ∈ path
    · refine ⟨.numbered id path, rfl, ?_, .numbered h (.inr hmem), ?_⟩
      · exact (displayNameOn_of_mem hmem).symm
      · simp [walk, hmem]
    · rw [displayNameOn_of_notMem hmem]
      cases hs : m.symbols[id.index]? with
      | none =>
        refine ⟨.numbered id path, rfl, ?_, .numbered h (.inl ?_), ?_⟩
        · simp [plainName, hs, Call.text]
        · exact List.getElem?_eq_none_iff.1 hs
        · simp [walk, hs]
      | some s =>
        have hin : id.index < m.symbols.length := (List.getElem?_eq_some_iff.1 hs).1
        have hless := offPath_cons_lt hmem hin
        have hcall := fun a => @ih a (id :: path) (by omega) (h.cons hmem hin)
        choose call hsymbol htext hexact hrun using hcall
        refine ⟨.spelled id path (m.plainName (m.displayNameOn · (id :: path)) id)
          ((m.branches s).map call), rfl, rfl, ?_, ?_⟩
        · refine .spelled h hs hmem ?_ ?_ ?_
          · rw [List.map_map]
            exact List.map_id'' hsymbol _
          · intro c hc
            obtain ⟨a, -, rfl⟩ := List.mem_map.1 hc
            rw [htext, hsymbol]
          · intro c hc
            obtain ⟨a, -, rfl⟩ := List.mem_map.1 hc
            exact hexact a
        · have howner := option_mapM_run hrun (m.owner? s)
          have hpointee := option_mapM_run hrun s.pointee?
          have harguments := mapM_run hrun s.typeArguments
          simp [walk, hmem, hs, howner, hpointee, harguments, plainName, branches,
            Option.toList_map, Function.comp_def, htext]

/-- Display names end: no more calls are nested than there are symbols, and one. All calls share a
path and find it as their caller left it, so it holds the callers and nothing else. Circles are
closed where they close and only there; where there is none, the display name is the plain name. -/
theorem displayName_closes (m : Model) (id : SymbolId) :
    (∃ call : Call, call.symbol = id ∧ call.text = m.displayName id ∧ m.Exact [] call ∧
      (m.walk (m.symbols.length + 1) id).run [] = some (call, [])) ∧
    (m.NoCircle id →
      (∀ a, ReflTransGen m.Branch id a → m.displayName a = m.plainName m.displayName a) ∧
      ∀ name : SymbolId → String,
        (∀ a, ReflTransGen m.Branch id a → name a = m.plainName name a) →
        m.displayName id = name id) := by
  refine ⟨?_, fun h => ⟨?_, ?_⟩⟩
  · apply walk_run
    · simp [offPath]
    · exact simple_nil m
  · intro a ha
    exact displayName_plain h ha
  · intro name hname
    exact displayName_unique h hname

/-- A generic class with an unknown argument and a pointer to a class, beside two classes that
contain each other. -/
theorem displayName_closes_unknown :
    let m : Model := {
      symbols := [
        { name := "", kind := .space },
        { name := "N", kind := .space, containingNamespace := some ⟨0⟩ },
        { name := "C", kind := .classType, containingNamespace := some ⟨1⟩ },
        { name := "", kind := .pointer, pointedAt := some ⟨2⟩ },
        { name := "G", kind := .classType, containingType := some ⟨2⟩,
          typeArguments := [⟨9⟩, ⟨3⟩] },
        { name := "A", kind := .classType, containingType := some ⟨6⟩ },
        { name := "B", kind := .classType, containingType := some ⟨5⟩ }] }
    m.NoCircle ⟨4⟩ ∧ m.displayName ⟨4⟩ = m.plainName m.displayName ⟨4⟩ ∧
      m.displayName ⟨4⟩ = "N.C.G<symbol 9, N.C*>" ∧ m.displayName ⟨6⟩ = "symbol 6.A.B" ∧
      ∃ call : Call, call.symbol = ⟨6⟩ ∧ call.text = m.displayName ⟨6⟩ ∧ m.Exact [] call ∧
        (m.walk 8 ⟨6⟩).run [] = some (call, []) := by
  intro m
  have hfree : m.NoCircle ⟨4⟩ := by
    apply noCircle_of_rank (· ∈ [⟨4⟩, ⟨3⟩, ⟨2⟩, ⟨1⟩, ⟨9⟩]) fun a => a.index % 9
    · decide
    · intro a s ha hs
      simp only [List.mem_cons, List.not_mem_nil, or_false] at ha
      rcases ha with rfl | rfl | rfl | rfl | rfl <;> cases hs <;> decide
  have hplain := ((displayName_closes m ⟨4⟩).2 hfree).1 ⟨4⟩ .refl
  have hname : m.displayName ⟨4⟩ = "N.C.G<symbol 9, N.C*>" := by cbv
  have hcircle : m.displayName ⟨6⟩ = "symbol 6.A.B" := by cbv
  exact ⟨hfree, hplain, hname, hcircle, (displayName_closes m ⟨6⟩).1⟩

end Model

end TrapFacts
