import TrapFacts.Program

/-! Programs that do the same, whatever becomes of diagnostics. -/

namespace TrapFacts

variable {α β : Type} {free last : Bool}

namespace Prog

def IsPure {α : Type} : Prog α → Prop
  | .pure _ => True
  | _ => False

/-- A program in which nothing is left to do after an error of the model, neither in the program
itself nor in one around it: where it fails, the failure is recovered from next. So the rest is the
same whether such errors are tolerated or not. In a program that is itself recovered from next, the
error may come last. Nor does such a program go on after a failure that is fatal. -/
def Discreet {α : Type} : Prog α → (last : Bool) → Prop
  | .pure _, _ => True
  | .fail _, _ => True
  | .fresh k, last => ∀ l, (k l).Discreet last
  | .define _ k, last => ∀ l, (k l).Discreet last
  | .emit _ k, last => k.Discreet last
  | .send _ k, last => k.Discreet last
  | .modelError _ _ k, last => last = true ∧ k.IsPure
  | .missingType _ k, last => k.Discreet last
  | .setAssemblyFile _ _ k, last => k.Discreet last
  | .assemblyFile _ k, last => ∀ file, (k file).Discreet last
  | .openGenerics _ k, last => ∀ new, (k new).Discreet last
  | .snapshot k, last => ∀ s, (k s).Discreet last
  | .note _ k, last => k.Discreet last
  | .guarded _ body k, last => body.Discreet false ∧ k.Discreet last
  | .attempt _ _ body k, last => body.Discreet true ∧ k.Discreet last
  | .catch _ _, _ => False
  | .later body k, last => body.Discreet true ∧ k.Discreet last
  | .drain k, last => k.Discreet last
  | .create _ factory body k, last =>
    factory.Discreet false ∧ (∀ en l, (body en l).Discreet true) ∧ ∀ c, (k c).Discreet last
  | .summon _ k, last => ∀ c, (k c).Discreet last

theorem Discreet.bind {p : Prog α} {f : α → Prog β} (h : p.Discreet false)
    (hf : ∀ a, (f a).Discreet last) : (p.bind f).Discreet last := by
  induction p with
  | pure a => exact hf a
  | fail => trivial
  | emit _ _ ih | send _ _ ih | missingType _ _ ih | setAssemblyFile _ _ _ ih | note _ _ ih
  | drain _ ih => exact ih h hf
  | fresh _ ih | define _ _ ih | assemblyFile _ _ ih | openGenerics _ _ ih | snapshot _ ih
  | summon _ _ ih => exact fun a => ih a (h a) hf
  | modelError => cases h.1
  | guarded _ _ _ _ ih | attempt _ _ _ _ _ ih | later _ _ _ ih => exact ⟨h.1, ih h.2 hf⟩
  | «catch» => exact h.elim
  | create _ _ _ _ _ _ ih => exact ⟨h.1, h.2.1, fun c => ih c (h.2.2 c) hf⟩

/-- A failed lookup ends the program, a successful one goes on with what it found. -/
theorem Discreet.read {r : Except Failure α} {f : α → Prog β}
    (h : ∀ a, r = .ok a → (f a).Discreet last) : ((Prog.ofExcept r).bind f).Discreet last := by
  cases r with
  | ok a => exact h a rfl
  | error e => trivial

theorem Discreet.each {items : List α} {body : α → Prog Unit}
    (h : ∀ a ∈ items, (body a).Discreet false) : (each items body).Discreet last := by
  induction items with
  | nil => trivial
  | cons a items ih =>
    exact (h a List.mem_cons_self).bind fun _ => ih fun a ha => h a (List.mem_cons_of_mem _ ha)

theorem Discreet.collect {items : List α} {body : α → Prog β}
    (h : ∀ a ∈ items, (body a).Discreet false) : (collect items body).Discreet last := by
  induction items generalizing last with
  | nil => trivial
  | cons a items ih =>
    refine (h a List.mem_cons_self).bind fun b => ?_
    exact (ih fun a ha => h a (List.mem_cons_of_mem _ ha)).bind fun bs => trivial

/-- Two programs that do the same. If one may say something where the other does not (`free`), it
may attempt what must fail, or fail where the other one is at its end and failures are recovered
from next (`last`). An error of the model comes last, as in a discreet program. -/
inductive Echoes (free : Bool) : {α : Type} → (last : Bool) → Prog α → Prog α → Prop
  | pure {α : Type} {last : Bool} (a : α) : Echoes free last (.pure a) (.pure a)
  | fail {α : Type} {last : Bool} (e : Failure) : Echoes free last (.fail e : Prog α) (.fail e)
  | fresh {α : Type} {last : Bool} {k k' : Label → Prog α} :
    (∀ l, Echoes free last (k l) (k' l)) → Echoes free last (.fresh k) (.fresh k')
  | define {α : Type} {last : Bool} (key : Key) {k k' : Label → Prog α} :
    (∀ l, Echoes free last (k l) (k' l)) → Echoes free last (.define key k) (.define key k')
  | emit {α : Type} {last : Bool} (t : Tuple) {k k' : Prog α} :
    Echoes free last k k' → Echoes free last (.emit t k) (.emit t k')
  | send {α : Type} {last : Bool} (message : Message) {k k' : Prog α} :
    Echoes free last k k' → Echoes free last (.send message k) (.send message k')
  | modelError {α : Type} (symbol : Option SymbolId) (text : String) (a : α) :
    Echoes free true (.modelError symbol text (.pure a)) (.modelError symbol text (.pure a))
  | missingType {α : Type} {last : Bool} (name : String) {k k' : Prog α} :
    Echoes free last k k' → Echoes free last (.missingType name k) (.missingType name k')
  | setAssemblyFile {α : Type} {last : Bool} (name file : String) {k k' : Prog α} :
    Echoes free last k k' →
      Echoes free last (.setAssemblyFile name file k) (.setAssemblyFile name file k')
  | assemblyFile {α : Type} {last : Bool} (name : String) {k k' : Option String → Prog α} :
    (∀ file, Echoes free last (k file) (k' file)) →
      Echoes free last (.assemblyFile name k) (.assemblyFile name k')
  | openGenerics {α : Type} {last : Bool} (l : Label) {k k' : Bool → Prog α} :
    (∀ new, Echoes free last (k new) (k' new)) →
      Echoes free last (.openGenerics l k) (.openGenerics l k')
  | snapshot {α : Type} {last : Bool} {k k' : Snapshot → Prog α} :
    (∀ s, Echoes free last (k s) (k' s)) → Echoes free last (.snapshot k) (.snapshot k')
  | note {α : Type} {last : Bool} (remark : Note) {k k' : Prog α} :
    Echoes free last k k' → Echoes free last (.note remark k) (.note remark k')
  | guarded {α : Type} {last : Bool} (key : Key) {body body' : Prog Unit} {k k' : Prog α} :
    Echoes free false body body' → Echoes free last k k' →
      Echoes free last (.guarded key body k) (.guarded key body' k')
  | attempt {α : Type} {last : Bool} (node : Option NodeId) (symbol : Option SymbolId)
      {body body' : Prog Unit} {k k' : Prog α} :
    Echoes free true body body' → Echoes free last k k' →
      Echoes free last (.attempt node symbol body k) (.attempt node symbol body' k')
  | later {α : Type} {last : Bool} {body body' : Prog Unit} {k k' : Prog α} :
    Echoes free true body body' → Echoes free last k k' →
      Echoes free last (.later body k) (.later body' k')
  | drain {α : Type} {last : Bool} {k k' : Prog α} :
    Echoes free last k k' → Echoes free last (.drain k) (.drain k')
  | create {α : Type} {last : Bool} (slot : Slot) {factory factory' : Prog Entity}
      {body body' : Entity → Label → Prog Unit} {k k' : Created → Prog α} :
    Echoes free false factory factory' → (∀ en l, Echoes free true (body en l) (body' en l)) →
      (∀ c, Echoes free last (k c) (k' c)) →
      Echoes free last (.create slot factory body k) (.create slot factory' body' k')
  | summon {α : Type} {last : Bool} (recipe : Recipe) {k k' : Created → Prog α} :
    (∀ c, Echoes free last (k c) (k' c)) → Echoes free last (.summon recipe k) (.summon recipe k')
  | futile {α : Type} {last : Bool} {e : Failure} (node : Option NodeId)
      (symbol : Option SymbolId) {k k' : Prog α} : free = true → e.isFatal = false →
    Echoes free last k k' → Echoes free last (.attempt node symbol (.fail e) k) k'
  | failed {α : Type} {e : Failure} (a : α) : free = true → e.isFatal = false →
    Echoes free true (.fail e) (.pure a)

/-- A discreet program echoes itself: it does not tell the contexts apart. -/
theorem Discreet.echoes {p : Prog α} (h : p.Discreet last) : p.Echoes free last p := by
  induction p generalizing last with
  | pure a => exact .pure a
  | fail e => exact .fail e
  | fresh _ ih => exact .fresh fun l => ih l (h l)
  | define key _ ih => exact .define key fun l => ih l (h l)
  | emit t _ ih => exact .emit t (ih h)
  | send message _ ih => exact .send message (ih h)
  | modelError symbol text k =>
    obtain ⟨rfl, hk⟩ := h
    cases k with
    | pure a => exact .modelError symbol text a
    | _ => exact hk.elim
  | missingType name _ ih => exact .missingType name (ih h)
  | setAssemblyFile name file _ ih => exact .setAssemblyFile name file (ih h)
  | assemblyFile name _ ih => exact .assemblyFile name fun file => ih file (h file)
  | openGenerics l _ ih => exact .openGenerics l fun new => ih new (h new)
  | snapshot _ ih => exact .snapshot fun s => ih s (h s)
  | note remark _ ih => exact .note remark (ih h)
  | guarded key _ _ ihb ihk => exact .guarded key (ihb h.1) (ihk h.2)
  | attempt node symbol _ _ ihb ihk => exact .attempt node symbol (ihb h.1) (ihk h.2)
  | «catch» => exact h.elim
  | later _ _ ihb ihk => exact .later (ihb h.1) (ihk h.2)
  | drain _ ih => exact .drain (ih h)
  | create slot _ _ _ ihf ihb ihk =>
    exact .create slot (ihf h.1) (fun en l => ihb en l (h.2.1 en l)) fun c => ihk c (h.2.2 c)
  | summon recipe _ ih => exact .summon recipe fun c => ih c (h c)

namespace Echoes

/-- Programs echo in sequence where both parts do. -/
theorem bind {p p' : Prog α} {f f' : α → Prog β} (h : p.Echoes free false p')
    (hf : ∀ a, (f a).Echoes free last (f' a)) : (p.bind f).Echoes free last (p'.bind f') := by
  generalize hsure : false = sure at h
  induction h with
  | pure a => exact hf a
  | fail e => exact .fail e
  | fresh _ ih => exact .fresh fun l => ih l hf hsure
  | define key _ ih => exact .define key fun l => ih l hf hsure
  | emit t _ ih => exact .emit t (ih hf hsure)
  | send message _ ih => exact .send message (ih hf hsure)
  | modelError | failed => cases hsure
  | missingType name _ ih => exact .missingType name (ih hf hsure)
  | setAssemblyFile name file _ ih => exact .setAssemblyFile name file (ih hf hsure)
  | assemblyFile name _ ih => exact .assemblyFile name fun file => ih file hf hsure
  | openGenerics l _ ih => exact .openGenerics l fun new => ih new hf hsure
  | snapshot _ ih => exact .snapshot fun s => ih s hf hsure
  | note remark _ ih => exact .note remark (ih hf hsure)
  | guarded key hb _ _ ih => exact .guarded key hb (ih hf hsure)
  | attempt node symbol hb _ _ ih => exact .attempt node symbol hb (ih hf hsure)
  | later hb _ _ ih => exact .later hb (ih hf hsure)
  | drain _ ih => exact .drain (ih hf hsure)
  | create slot hm hb _ _ _ ih => exact .create slot hm hb fun c => ih c hf hsure
  | summon recipe _ ih => exact .summon recipe fun c => ih c hf hsure
  | futile node symbol hfree he _ ih => exact .futile node symbol hfree he (ih hf hsure)

/-- A failed lookup ends both programs, after a successful one they go on. -/
theorem read {r : Except Failure α} {f f' : α → Prog β}
    (h : ∀ a, r = .ok a → (f a).Echoes free last (f' a)) :
    ((Prog.ofExcept r).bind f).Echoes free last ((Prog.ofExcept r).bind f') := by
  cases r with
  | ok a => exact h a rfl
  | error e => exact .fail e

theorem each_eq_pure {items : List α} {body : α → Prog Unit}
    (h : ∀ a ∈ items, body a = .pure ()) : Prog.each items body = .pure () := by
  induction items with
  | nil => rfl
  | cons a items ih =>
    rw [Prog.each, h a List.mem_cons_self]
    exact ih fun a ha => h a (List.mem_cons_of_mem _ ha)

/-- Items may be left out that come to nothing. -/
theorem each_filter {keep : α → Bool} {items : List α} {body body' : α → Prog Unit}
    (hkeep : ∀ a ∈ items, keep a = true → (body a).Echoes free false (body' a))
    (hdrop : ∀ a ∈ items, keep a = false → (body a).Echoes free false (.pure ())) :
    (Prog.each items body).Echoes free last (Prog.each (items.filter keep) body') := by
  induction items with
  | nil => exact .pure ()
  | cons a items ih =>
    have ih := ih (fun a ha => hkeep a (List.mem_cons_of_mem _ ha)) fun a ha =>
      hdrop a (List.mem_cons_of_mem _ ha)
    cases ha : keep a with
    | true =>
      rw [List.filter_cons_of_pos ha]
      exact (hkeep a List.mem_cons_self ha).bind fun _ => ih
    | false =>
      have hskip : (body a).Echoes free false (Prog.pure ()) := hdrop a List.mem_cons_self ha
      rw [List.filter_cons_of_neg (by simp [ha])]
      exact hskip.bind fun _ => ih

/-- Items may be left out that fail, and that only such items follow as do nothing. -/
theorem each_failing {keep : α → Bool} {items : List α} {body body' : α → Prog Unit}
    (hfree : free = true)
    (hkeep : ∀ a ∈ items, keep a = true → (body a).Echoes free false (body' a))
    (hfail : ∀ a ∈ items, keep a = false → ∃ e, body a = .fail e ∧ e.isFatal = false)
    (hrest : items.Pairwise fun a b => keep a = false → keep b = true → body' b = .pure ()) :
    (Prog.each items body).Echoes free true (Prog.each (items.filter keep) body') := by
  induction items with
  | nil => exact .pure ()
  | cons a items ih =>
    obtain ⟨hafter, hrest⟩ := List.pairwise_cons.1 hrest
    cases ha : keep a with
    | true =>
      rw [List.filter_cons_of_pos ha]
      refine (hkeep a List.mem_cons_self ha).bind fun _ => ?_
      exact ih (fun a ha => hkeep a (List.mem_cons_of_mem _ ha))
        (fun a ha => hfail a (List.mem_cons_of_mem _ ha)) hrest
    | false =>
      obtain ⟨e, hbody, he⟩ := hfail a List.mem_cons_self ha
      have hnothing : Prog.each (items.filter keep) body' = .pure () := by
        refine each_eq_pure fun b hb => ?_
        obtain ⟨hmem, hkept⟩ := List.mem_filter.1 hb
        exact hafter b hmem ha hkept
      rw [List.filter_cons_of_neg (by simp [ha]), hnothing, Prog.each, hbody]
      exact .failed () hfree he

end Echoes

end Prog

end TrapFacts
