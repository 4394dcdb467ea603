import TrapFacts.Extractor

/-! What is logged of a sequence of messages, under a limit of errors. -/

namespace TrapFacts.Extractor

variable {limit : Nat} {x y : Extractor} {m last : Message}
  {past sent before after logged logged' : List Message}

def errorCount (sent : List Message) : Nat :=
  sent.countP (·.severity = .error)

/-- What is logged of messages: all of them while there are fewer errors than the limit. Of more,
what came before the error that reached the limit, and a line that says so. Where no error is
allowed for, nothing is logged. -/
inductive Capped (limit : Nat) (sent : List Message) : List Message → Prop
  | factsBehind : limit = 0 → Capped limit sent []
  | whole : errorCount sent < limit → Capped limit sent sent
  | cut (before after : List Message) (last : Message) : sent = before ++ last :: after →
    last.severity = .error → errorCount before + 1 = limit →
    Capped limit sent (before ++ [.info ("Stopping logging after " ++ toString limit ++ " errors")])

/-- What an extractor is after messages were sent to it. -/
structure Heard (x : Extractor) (sent : List Message) (y : Extractor) : Prop where
  logged : Capped x.config.maxErrors sent y.logged.toList
  errors : y.errors = errorCount sent
  config : y.config = x.config
  assemblyFiles : y.assemblyFiles = x.assemblyFiles
  missingTypes : y.missingTypes = x.missingTypes

theorem errorCount_append (past sent : List Message) :
    errorCount (past ++ sent) = errorCount past + errorCount sent :=
  List.countP_append

theorem errorCount_error (h : last.severity = .error) (after : List Message) :
    errorCount (last :: after) = errorCount after + 1 :=
  List.countP_cons_of_pos (by simpa using h)

theorem errors_message (y : Extractor) (m : Message) :
    (y.message m).errors = y.errors + errorCount [m] := by
  by_cases h : m.severity = .error
  · simp [message, errorCount, h]
  · simp [message, errorCount, h]

/-- A message is logged as long as the limit is not reached. -/
theorem logged_message_below (h : (y.message m).errors < y.config.maxErrors) :
    (y.message m).logged.toList = y.logged.toList ++ [m] := by
  by_cases hm : m.severity = .error
  · have hless : y.errors + 1 < y.config.maxErrors := by simpa [message, hm] using h
    have hne : y.errors + 1 ≠ y.config.maxErrors := by omega
    simp [message, hm, hless, hne]
  · have hless : y.errors < y.config.maxErrors := by simpa [message, hm] using h
    simp [message, hm, hless]

/-- The error that reaches the limit is replaced by a closing line. -/
theorem logged_message_reaching (hm : m.severity = .error)
    (h : (y.message m).errors = y.config.maxErrors) :
    (y.message m).logged.toList = y.logged.toList ++ [closing y.config.maxErrors] := by
  have hlast : y.errors + 1 = y.config.maxErrors := by simpa [message, hm] using h
  simp [message, hm, hlast]

/-- Behind the limit, nothing is logged, errors or not. -/
theorem logged_message_beyond (h : y.config.maxErrors ≤ y.errors) (m : Message) :
    (y.message m).logged = y.logged := by
  have hnot : ¬ y.errors < y.config.maxErrors := by omega
  have hnext : ¬ y.errors + 1 < y.config.maxErrors := by omega
  have hne : y.errors + 1 ≠ y.config.maxErrors := by omega
  by_cases hm : m.severity = .error
  · simp [message, hm, hnext, hne]
  · simp [message, hm, hnot]

/-- What came before the error that reached the limit is settled by the messages. -/
theorem before_unique {before' after' : List Message} {last' : Message}
    (h : before ++ last :: after = before' ++ last' :: after') (hl : last.severity = .error)
    (hl' : last'.severity = .error) (hc : errorCount before = errorCount before') :
    before = before' := by
  rcases List.append_eq_append_iff.1 h with ⟨ds, hds, hrest⟩ | ⟨ds, hds, hrest⟩
  · cases ds with
    | nil => simpa using hds.symm
    | cons d ds =>
      obtain ⟨rfl, -⟩ := List.cons.inj hrest
      rw [hds, errorCount_append, errorCount_error hl] at hc
      omega
  · cases ds with
    | nil => simpa using hds
    | cons d ds =>
      obtain ⟨rfl, -⟩ := List.cons.inj hrest
      rw [hds, errorCount_append, errorCount_error hl'] at hc
      omega

namespace Capped

theorem limit_le (h : sent = before ++ last :: after) (hl : last.severity = .error)
    (hc : errorCount before + 1 = limit) : 0 < limit ∧ limit ≤ errorCount sent := by
  rw [h, errorCount_append, errorCount_error hl]
  omega

/-- What is logged is determined by what is sent. -/
theorem unique (h : Capped limit sent logged) (h' : Capped limit sent logged') :
    logged = logged' := by
  cases h with
  | factsBehind hzero =>
    cases h' with
    | factsBehind => rfl
    | whole hfew => omega
    | cut _ _ _ hs hl hc => exact absurd (limit_le hs hl hc).1 (by omega)
  | whole hfew =>
    cases h' with
    | factsBehind hzero => omega
    | whole => rfl
    | cut _ _ _ hs hl hc => exact absurd (limit_le hs hl hc).2 (by omega)
  | cut before after last hs hl hc =>
    have hmany := limit_le hs hl hc
    cases h' with
    | factsBehind hzero => omega
    | whole hfew => omega
    | cut _ _ _ hs' hl' hc' => rw [before_unique (hs.symm.trans hs') hl hl' (by omega)]

end Capped

/-- One more message. -/
theorem Heard.message (h : Heard x sent y) (m : Message) :
    Heard x (sent ++ [m]) (y.message m) := by
  have herrors : (y.message m).errors = errorCount (sent ++ [m]) := by
    rw [errors_message, errorCount_append, h.errors]
  refine ⟨?_, herrors, h.config, h.assemblyFiles, h.missingTypes⟩
  have hmax : y.config.maxErrors = x.config.maxErrors := congrArg _ h.config
  have hlogged := h.logged
  have hcount := h.errors
  generalize hbefore : y.logged.toList = before at hlogged
  cases hlogged with
  | factsBehind hzero =>
    rw [logged_message_beyond (by omega), hbefore]
    exact .factsBehind hzero
  | whole hfew =>
    by_cases hbelow : (y.message m).errors < x.config.maxErrors
    · rw [logged_message_below (by omega), hbefore]
      exact .whole (by omega)
    · -- Only an error can have reached the limit.
      have hstep := errors_message y m
      have hm : m.severity = .error := by
        apply Decidable.byContradiction
        intro hm
        have hnone : errorCount [m] = 0 := by simp [errorCount, hm]
        omega
      have hone : errorCount [m] = 1 := errorCount_error hm []
      rw [logged_message_reaching hm (by omega), hbefore, hmax]
      exact .cut sent [] m rfl hm (by omega)
  | cut before after last hs hl hc =>
    have hmany := (Capped.limit_le hs hl hc).2
    rw [logged_message_beyond (by omega), hbefore]
    exact .cut before (after ++ [m]) last (by simp [hs]) hl hc

/-- An extractor hears messages one after the other. -/
theorem Heard.messages (h : Heard x past y) (sent : List Message) :
    Heard x (past ++ sent) (sent.foldl Extractor.message y) := by
  induction sent generalizing past y with
  | nil =>
    rw [List.append_nil]
    exact h
  | cons m sent ih =>
    have hnext := ih (h.message m)
    rw [List.append_assoc, List.singleton_append] at hnext
    exact hnext

/-- An extractor that nothing was sent to yet. -/
theorem heard_nothing (x : Extractor) (he : x.errors = 0) (hl : x.logged = #[]) :
    Heard x [] x := by
  refine ⟨?_, he, rfl, rfl, rfl⟩
  rw [hl]
  by_cases hzero : x.config.maxErrors = 0
  · exact .factsBehind hzero
  · exact .whole (Nat.pos_of_ne_zero hzero)

/-- Whoever sends the messages to an extractor, and in whatever order: they are logged up to the
error that reaches the limit, which a closing line stands for, and all errors are counted. Nothing
else depends on them. -/
theorem foldl_message_capped (c : ExtractionConfig) (files : List (String × String))
    (missing : List String) (sent : List Message) :
    let x : Extractor := { config := c, assemblyFiles := files, missingTypes := missing }
    let y := sent.foldl message x
    (∀ logged, Capped c.maxErrors sent logged ↔ y.logged.toList = logged) ∧
      y.errors = errorCount sent ∧ y.config = c ∧ y.assemblyFiles = files ∧
      y.missingTypes = missing := by
  intro x y
  have hheard : Heard x sent y := (heard_nothing x rfl rfl).messages sent
  refine ⟨?_, hheard.errors, hheard.config, hheard.assemblyFiles, hheard.missingTypes⟩
  intro logged
  constructor
  · intro h
    exact hheard.logged.unique h
  · intro h
    exact h ▸ hheard.logged

/-- A warning after the last error that was let through is not let through. -/
example :
    let e : Message := .error "e"
    ([e, .warning "a", e, .warning "b", e].foldl message { config := { maxErrors := 2 } }).logged =
      #[e, .warning "a", closing 2] := by
  decide

end TrapFacts.Extractor
