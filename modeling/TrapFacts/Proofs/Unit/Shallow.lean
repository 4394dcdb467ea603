import TrapFacts.Proofs.Unit.Backlog
import TrapFacts.Proofs.Unit.Raised

/-! A file is extracted within a limit that depends on how symbols refer to one another alone, not
on their members. -/

namespace TrapFacts

variable {m : Model} {scope : Scope} {x : Extractor} {n k longest room : Nat} {inside : Bool}
  {recipe needed : Recipe} {id a b : SymbolId} {tree : TreeId}

/-- Symbols of which each refers to the next. -/
def Model.IsPath (m : Model) (path : List SymbolId) : Prop :=
  path.IsChain m.Links ∧ ∀ id ∈ path, ∃ s, m.symbol id = .ok s

/-- No path from a symbol on has more symbols than that. -/
def Model.Within (m : Model) (n : Nat) (id : SymbolId) : Prop :=
  ∀ path, m.IsPath (id :: path) → path.length < n

/-- The levels are enough for an entity and all that must be made before it. The description of an
assembly takes what it makes after it. -/
def Model.Shallow (m : Model) (longest : Nat) : Nat → Recipe → Prop
  | 0, _ => False
  | _ + 1, .file _ => True
  | n + 1, .location _ => 0 < n
  | n + 1, .assembly _ => longest + 1 < n
  | n + 1, .space id => m.Within n id
  | n + 1, .namedType id | n + 1, .pointer id | n + 1, .method id =>
    (∃ s, m.symbol id = .ok s) ∧ m.Within n id

/-- How many levels are held back for descriptions. Inside a guard none are: there descriptions are
queued if they make anything. -/
def reserve (longest : Nat) : (inside : Bool) → Recipe → Nat
  | false, .namedType _ | false, .pointer _ | false, .method _ => longest + 1
  | _, _ => 0

/-- What may be made with so many levels left, some of them held back. -/
def Model.Affords (m : Model) (scope : Scope) (longest : Nat) (held : Bool → Recipe → Nat)
    (inside : Bool) (n : Nat) (recipe : Recipe) : Prop :=
  m.Has scope recipe ∧ ∃ k, k + held inside recipe ≤ n ∧ m.Shallow longest k recipe

namespace Model

/-- Along a link the paths get shorter. -/
theorem Within.links (h : m.Within (n + 1) a) (hl : m.Links a b) : m.Within n b := by
  intro path hpath
  have hfrom : m.IsPath (a :: b :: path) := by
    refine ⟨.cons_cons hl hpath.1, fun id hid => ?_⟩
    rcases List.mem_cons.1 hid with rfl | hid
    · obtain ⟨s, hs, -⟩ := hl
      exact ⟨s, hs⟩
    · exact hpath.2 id hid
  exact Nat.lt_of_succ_lt_succ (h _ hfrom)

theorem Within.pos (h : m.Within n id) {s : Symbol} (hs : m.symbol id = .ok s) : 0 < n := by
  refine h [] ⟨.singleton id, fun _ hid => ?_⟩
  obtain rfl := List.mem_singleton.1 hid
  exact ⟨s, hs⟩

/-- Every symbol is within the length of a longest path. -/
theorem within_longest (h : ∀ path, m.IsPath path → path.length ≤ longest) (id : SymbolId) :
    m.Within longest id :=
  fun path hpath => h (id :: path) hpath

/-- Where what refers is not referred to, paths are short. -/
theorem IsPath.length_le_two {refers : SymbolId → Prop} {path : List SymbolId}
    (hlinks : ∀ a b, m.Links a b → refers a ∧ ¬ refers b) (h : m.IsPath path) :
    path.length ≤ 2 := by
  obtain ⟨hchain, -⟩ := h
  rcases path with _ | ⟨a, _ | ⟨b, _ | ⟨c, rest⟩⟩⟩
  · simp
  · simp
  · simp
  · obtain ⟨hab, hchain⟩ := List.isChain_cons_cons.1 hchain
    have hbc := (List.isChain_cons_cons.1 hchain).1
    exact absurd (hlinks b c hbc).1 (hlinks a b hab).2

theorem shallow_of_typeRecipe? (h : m.typeRecipe? id = some recipe) (hw : m.Within n id) :
    m.Shallow longest (n + 1) recipe := by
  have hs := symbol_of_typeRecipe? h
  rcases typeRecipe?_cases h with rfl | rfl <;> exact ⟨hs, hw⟩

/-- What must be made before is shallower. -/
theorem Shallow.needs (h : m.Shallow longest (n + 1) recipe) (hn : m.Needs recipe needed) :
    m.Shallow longest n needed := by
  have hlinks : ∀ {id b}, m.Links id b → m.Within n id → ∃ k, n = k + 1 ∧ m.Within k b := by
    intro id b hl hw
    have ⟨s, hs, _⟩ := hl
    obtain ⟨k, rfl⟩ := Nat.exists_eq_add_one.2 (hw.pos hs)
    exact ⟨k, rfl, hw.links hl⟩
  cases recipe with
  | file => exact hn.elim
  | location place =>
    obtain ⟨k, rfl⟩ := Nat.exists_eq_add_one_of_ne_zero (Nat.ne_of_gt h)
    cases place with
    | none =>
      obtain rfl := hn
      trivial
    | some place =>
      obtain ⟨t, -, rfl⟩ := hn
      trivial
  | assembly =>
    obtain ⟨k, rfl⟩ := Nat.exists_eq_add_one_of_ne_zero (Nat.ne_zero_of_lt h)
    obtain ⟨path, rfl⟩ := hn
    trivial
  | space id =>
    obtain ⟨b, hl, rfl⟩ := hn
    obtain ⟨k, rfl, hw⟩ := hlinks hl h
    exact hw
  | namedType | pointer | method =>
    obtain ⟨b, hl, rfl | hr⟩ := hn
    · obtain ⟨k, rfl, hw⟩ := hlinks hl h.2
      exact hw
    · obtain ⟨k, rfl, hw⟩ := hlinks hl h.2
      exact shallow_of_typeRecipe? hr hw

/-- What descriptions make, but for places, takes a longest path at most, and one more level. -/
theorem shallow_of_offers (hlongest : ∀ path, m.IsPath path → path.length ≤ longest)
    (ho : m.Offers recipe) :
    (∃ place, recipe = .location place) ∨ m.Shallow longest (longest + 1) recipe := by
  rcases ho with hplace | ⟨id, hr⟩ | ⟨id, s, hs, rfl⟩
  · exact .inl hplace
  · exact .inr (shallow_of_typeRecipe? hr (within_longest hlongest id))
  · exact .inr ⟨⟨s, hs⟩, within_longest hlongest id⟩

theorem reserve_le : reserve longest inside recipe ≤ longest + 1 := by
  cases inside <;> cases recipe <;> simp [reserve]

theorem reserve_of_pushes (hb : recipe.behavior = .pushesScope) :
    reserve longest false recipe = longest + 1 := by
  cases recipe <;> first | rfl | cases hb

/-- What is needed does not need a larger reserve. -/
theorem reserve_needs (hn : m.Needs recipe needed) :
    reserve longest inside needed ≤ reserve longest inside recipe := by
  cases inside with
  | true => exact Nat.zero_le _
  | false =>
    cases recipe with
    | file => exact hn.elim
    | location place =>
      cases place with
      | none =>
        obtain rfl := hn
        exact Nat.le_refl _
      | some place =>
        obtain ⟨t, -, rfl⟩ := hn
        exact Nat.le_refl _
    | assembly =>
      obtain ⟨path, rfl⟩ := hn
      exact Nat.le_refl _
    | space =>
      obtain ⟨b, -, rfl⟩ := hn
      exact Nat.le_refl _
    | namedType | pointer | method =>
      obtain ⟨b, -, rfl | hr⟩ := hn
      · exact Nat.zero_le _
      · rcases typeRecipe?_cases hr with rfl | rfl <;> exact Nat.le_refl _

namespace Affords

variable {held : Bool → Recipe → Nat}

theorem mono (h : m.Affords scope longest held inside n recipe) (hn : n ≤ k) :
    m.Affords scope longest held inside k recipe := by
  obtain ⟨hhas, j, hj, hshallow⟩ := h
  exact ⟨hhas, j, Nat.le_trans hj hn, hshallow⟩

/-- What is needed can be afforded one level deeper. -/
theorem needs (h : m.Affords scope longest held inside (n + 1) recipe)
    (hn : m.Needs recipe needed) (hheld : held inside needed ≤ held inside recipe) :
    m.Affords scope longest held inside n needed := by
  obtain ⟨hhas, k, hk, hshallow⟩ := h
  cases k with
  | zero => exact hshallow.elim
  | succ k => exact ⟨hhas.needs hn, k, by omega, hshallow.needs hn⟩

theorem place {place : Option Declaration} (hn : 2 + held inside (.location place) ≤ n) :
    m.Affords scope longest held inside n (.location place) :=
  ⟨trivial, 2, hn, Nat.one_pos⟩

/-- What descriptions make can be afforded where a longest path fits. -/
theorem offered (hlongest : ∀ path, m.IsPath path → path.length ≤ longest)
    (hn : longest + 1 + held inside recipe ≤ n)
    (hplace : ∀ declared, 2 + held inside (.location declared) ≤ n) (ho : m.Offers recipe) :
    m.Affords scope longest held inside n recipe := by
  rcases shallow_of_offers hlongest ho with ⟨declared, rfl⟩ | hshallow
  · exact place (hplace declared)
  · exact ⟨has_of_offers ho, longest + 1, hn, hshallow⟩

/-- A type or a method is a symbol, so some path is not empty, and a level is left for its end. -/
theorem left (hlongest : ∀ path, m.IsPath path → path.length ≤ longest)
    (h : m.Affords scope longest held inside (n + 1) recipe)
    (hb : recipe.behavior = .pushesScope) : 0 < longest ∧ 1 + held inside recipe ≤ n := by
  obtain ⟨-, k, hk, hshallow⟩ := h
  cases k with
  | zero => exact hshallow.elim
  | succ k =>
    cases recipe with
    | namedType id | method id =>
      obtain ⟨⟨s, hs⟩, hw⟩ := hshallow
      have hpos : 0 < k := hw.pos hs
      exact ⟨(within_longest hlongest id).pos hs, by omega⟩
    | _ => cases hb

end Affords

end Model

namespace TrapUnit

/-- Twice the longest path and two more levels are enough for a file. -/
theorem permits_affords (hlongest : ∀ path, m.IsPath path → path.length ≤ longest)
    (hroom : 2 * longest + 2 ≤ room) (hsource : scope.isAssembly = false) :
    Permits m scope (source tree) room 0 (m.Affords scope longest (reserve longest))
      (fun _ => False) where
  grows hn h := h.mono hn
  spare h := by
    obtain ⟨-, k, hk, hshallow⟩ := h
    obtain rfl : k = 0 := by omega
    exact hshallow
  files h := h.1
  needs h hn := h.needs hn (Model.reserve_needs hn)
  offers h hd ho := by
    have hb := hd.pushes_or_assembly.resolve_right fun ha => by simp [hsource] at ha
    obtain ⟨-, hleft⟩ := h.left hlongest hb
    rw [Model.reserve_of_pushes hb] at hleft
    rw [hsource]
    exact .offered hlongest (show longest + 1 + 0 ≤ _ by omega)
      (fun _ => show 2 + 0 ≤ _ by omega) ho
  place h hb := by
    obtain ⟨-, hleft⟩ := h.left hlongest hb
    rw [Model.reserve_of_pushes hb] at hleft
    exact .place (show 2 + 0 ≤ _ by omega)
  queued ho := by
    rw [hsource]
    exact .offered hlongest (show longest + 1 + 0 ≤ room by omega)
      (fun _ => show 2 + 0 ≤ room by omega) ho
  queuedPlace := .place (show 2 + 0 ≤ room by omega)
  starts h := by
    rcases h with ⟨t, ht, rfl⟩ | ho | ⟨id, s, -, rfl⟩
    · exact ⟨Model.files_of_tree ht, 1, show 1 + 0 ≤ room by omega, trivial⟩
    · refine .offered hlongest ?_ (fun _ => show 2 + 0 ≤ room by omega) ho
      exact Nat.le_trans (Nat.add_le_add_left Model.reserve_le _) (by omega)
    · refine ⟨trivial, longest + 1, show longest + 1 + 0 ≤ room by omega, ?_⟩
      exact Model.within_longest hlongest id

/-- A file is extracted if the limit leaves room for twice the longest path and two more levels,
however long the chains are that members form, or the circles. -/
theorem extract_shallow {t : SyntaxTree}
    (hlongest : ∀ path, m.IsPath path → path.length ≤ longest)
    (hlimit : 2 * longest + 2 ≤ x.config.maxRecursionDepth) (ht : m.tree tree = .ok t) :
    ∃ e y, (source tree).extract x m = .ok (e, y) ∧ e.status = .extracted := by
  have hs : (source tree).scope x m = .ok (.source tree t.path) := by
    simp only [TrapUnit.scope, ht]
  refine ⟨_, _, extract_finish hs _, ?_⟩
  rcases runIn_outcome (permits_affords hlongest hlimit rfl) hs rfl with ⟨hdone, -⟩ | ⟨-, hmet⟩
  · exact congrArg Prod.fst (conclude_done hdone)
  · obtain ⟨_, _, _, _, hlimits, _⟩ := hmet
    exact hlimits.elim

/-- Two classes with methods that return one another. -/
theorem extract_shallow_circle :
    let m : Model := {
      trees := [{ path := "a.cs", members := [⟨0⟩] }]
      symbols := [
        { name := "C", kind := .classType, locations := [⟨⟨0⟩, ⟨1, 1, 1, 9⟩⟩], members := [⟨2⟩] },
        { name := "D", kind := .classType, locations := [⟨⟨0⟩, ⟨2, 1, 2, 9⟩⟩], members := [⟨3⟩] },
        { name := "f", kind := .method, containingType := some ⟨0⟩, returnType := some ⟨1⟩ },
        { name := "g", kind := .method, containingType := some ⟨1⟩, returnType := some ⟨0⟩ }] }
    let x : Extractor := { config := { maxRecursionDepth := 6 } }
    (∀ path, m.IsPath path → path.length ≤ 2) ∧ 2 * 2 + 2 ≤ x.config.maxRecursionDepth ∧
      ∃ e y, (source ⟨0⟩).extract x m = .ok (e, y) ∧ e.status = .extracted := by
  intro m x
  -- Methods refer to classes, and those to nothing.
  have hlinks : ∀ a b, m.Links a b → 2 ≤ a.index ∧ ¬ 2 ≤ b.index := by
    rintro ⟨i⟩ b ⟨s, hs, hl⟩
    obtain rfl | rfl | rfl | rfl | hi : i = 0 ∨ i = 1 ∨ i = 2 ∨ i = 3 ∨ 4 ≤ i := by omega
    · cases hs
      simp [Symbol.constructedFrom?] at hl
    · cases hs
      simp [Symbol.constructedFrom?] at hl
    · cases hs
      simp only [Symbol.constructedFrom?] at hl
      obtain rfl | rfl : b = ⟨0⟩ ∨ b = ⟨1⟩ := by simpa [eq_comm] using hl
      all_goals simp
    · cases hs
      simp only [Symbol.constructedFrom?] at hl
      obtain rfl | rfl : b = ⟨1⟩ ∨ b = ⟨0⟩ := by simpa [eq_comm] using hl
      all_goals simp
    · have hin : i < 4 := (Model.index_of_symbol hs).1
      omega
  have hpaths : ∀ path, m.IsPath path → path.length ≤ 2 := fun _ h => h.length_le_two hlinks
  have hlimit : 2 * 2 + 2 ≤ x.config.maxRecursionDepth := by decide
  exact ⟨hpaths, hlimit, extract_shallow hpaths hlimit rfl⟩

end TrapUnit

end TrapFacts
