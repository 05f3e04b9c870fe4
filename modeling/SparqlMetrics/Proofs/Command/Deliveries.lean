import SparqlMetrics.Proofs.Command.Interaction

/-!
# Attempts to send statements

An attempt is a call of the transport. A statement is attempted again until it is accepted or there
have been more attempts than retries, and the next statement follows. Whatever the transport replies,
each statement has its own attempts, the counts are those of the replies, and the log tells of every
statement that was not accepted. Main statement: `Upload.runs_sendAll_iff`.
-/
namespace SparqlMetrics

namespace Upload

/-- Whether the endpoint has accepted a request. -/
def Reply.isAccepted : Reply → Bool
  | .answered status _ => 200 ≤ status && status < 300
  | _ => false

/-- Whether replies are all there are to one statement, which may be attempted so many times. -/
structure IsDelivery (allowed : Int) (replies : List Reply) : Prop where
  /-- No attempt follows one that is accepted. -/
  stops : ∀ reply ∈ replies.dropLast, reply.isAccepted = false
  bounded : replies.length ≤ allowed.toNat
  /-- Nothing but an accepted attempt saves the others. -/
  exhausts : replies.any Reply.isAccepted = false → replies.length = allowed.toNat

/-- The calls that attempt a statement, with their replies. -/
def attempts (c : Config) (statement : Text) (replies : List Reply) : List Event :=
  replies.map fun reply => ⟨.post (c.request statement), reply⟩

def errors (replies : List Reply) : List SendError := replies.filterMap Reply.error?

/-- The warnings of failed attempts with numbers from a given one on. -/
def warnings (quiet : Bool) (statement attempt : Nat) (replies : List Reply) : Text :=
  if quiet then []
  else ((errors replies).zipIdx attempt).flatMap fun (e, number) => attemptWarning statement number e

section Deliver

variable {c : Config} {quiet : Bool} {number failures : Nat} {statement last : Text}
variable {reply : Reply} {replies : List Reply} {allowed : Int} {events : List Event} {d : Delivery}

theorem isAccepted_iff : reply.isAccepted = true ↔ reply.error? = none := by
  cases reply with
  | answered status response =>
      simp only [Reply.isAccepted, Reply.error?, Bool.and_eq_true, decide_eq_true_eq]
      split
      · simp only [reduceCtorEq, iff_false]
        omega
      · simp only [iff_true]
        omega
  | _ => simp [Reply.isAccepted, Reply.error?]

theorem isAccepted_of_error {e : SendError} (failed : reply.error? = some e) :
    reply.isAccepted = false := by
  rw [Bool.eq_false_iff, Ne, isAccepted_iff, failed]
  nofun

theorem isDelivery_nil_iff : IsDelivery allowed [] ↔ allowed ≤ 0 := by
  constructor
  · intro h
    have exhausts := h.exhausts rfl
    rw [List.length_nil] at exhausts
    omega
  · intro usedUp
    refine ⟨nofun, Nat.zero_le _, fun _ => ?_⟩
    rw [List.length_nil]
    omega

/-- An accepted attempt is the last one. -/
theorem isDelivery_accepted_iff (accepted : reply.isAccepted = true) :
    IsDelivery allowed (reply :: replies) ↔ 0 < allowed ∧ replies = [] := by
  constructor
  · intro h
    have bounded := h.bounded
    rw [List.length_cons] at bounded
    refine ⟨by omega, ?_⟩
    have stops := h.stops
    cases replies with
    | nil => rfl
    | cons next replies =>
        rw [List.dropLast_cons_cons, List.forall_mem_cons, accepted] at stops
        cases stops.1
  · rintro ⟨left, rfl⟩
    refine ⟨nofun, ?_, fun failed => ?_⟩
    · rw [List.length_singleton]
      omega
    · rw [List.any_cons, accepted] at failed
      cases failed

/-- Behind a failed attempt there is one less. -/
theorem isDelivery_failed_iff (failed : reply.isAccepted = false) :
    IsDelivery allowed (reply :: replies) ↔ 0 < allowed ∧ IsDelivery (allowed - 1) replies := by
  have all : (reply :: replies).any Reply.isAccepted = replies.any Reply.isAccepted := by
    rw [List.any_cons, failed, Bool.false_or]
  constructor
  · intro h
    have bounded := h.bounded
    rw [List.length_cons] at bounded
    refine ⟨by omega, ?_, by omega, fun unsent => ?_⟩
    · cases replies with
      | nil => nofun
      | cons next replies =>
          have stops := h.stops
          rw [List.dropLast_cons_cons, List.forall_mem_cons] at stops
          exact stops.2
    · have exhausts := h.exhausts (all.trans unsent)
      rw [List.length_cons] at exhausts
      omega
  · rintro ⟨left, h⟩
    have bounded := h.bounded
    refine ⟨?_, ?_, fun unsent => ?_⟩
    · cases replies with
      | nil => nofun
      | cons next replies => exact List.forall_mem_cons.mpr ⟨failed, h.stops⟩
    · rw [List.length_cons]
      omega
    · have exhausts := h.exhausts (all.symm.trans unsent)
      rw [List.length_cons]
      omega

/-- A statement is attempted exactly when an attempt is allowed. -/
theorem IsDelivery.one_le_length_iff (h : IsDelivery allowed replies) :
    1 ≤ replies.length ↔ 0 < allowed := by
  have bounded := h.bounded
  constructor
  · intro attempted
    omega
  · intro left
    refine Nat.pos_of_ne_zero fun unattempted => ?_
    have exhausts := h.exhausts (by simp [List.length_eq_zero_iff.mp unattempted])
    omega

/-- What one statement comes to with these replies, where so many attempts have failed before. -/
def outcome (quiet : Bool) (number failures : Nat) (last : Text) (replies : List Reply) :
    Delivery :=
  { sent := replies.any Reply.isAccepted
    lastError :=
      if replies.any Reply.isAccepted then [] else ((errors replies).map (·.message)).getLastD last
    log := warnings quiet number (failures + 1) replies }

theorem deliver_eq (c : Config) (quiet : Bool) (number failures : Nat) (statement last : Text) :
    (deliver c quiet number statement failures last : Interaction Delivery) =
      if (failures : Int) ≤ c.retries then
        MonadTransport.post (c.request statement) >>= fun reply =>
          match reply.error? with
          | none => pure { sent := true }
          | some e => do
            let rest ← deliver c quiet number statement (failures + 1) e.message
            let warning := if quiet then [] else attemptWarning number (failures + 1) e
            pure { rest with log := warning ++ rest.log }
      else pure { lastError := last } := by
  rw [deliver]
  rfl

theorem errors_cons {e : SendError} (failed : reply.error? = some e) :
    errors (reply :: replies) = e :: errors replies := List.filterMap_cons_some failed

theorem warnings_eq_nil {attempt : Nat} (h : errors replies = []) :
    warnings quiet number attempt replies = [] := by
  rw [warnings, h]
  split <;> rfl

theorem outcome_nil : outcome quiet number failures last [] = { lastError := last } := by
  rw [outcome, warnings_eq_nil rfl]
  rfl

theorem outcome_accepted (accepts : reply.error? = none) :
    outcome quiet number failures last [reply] = { sent := true } := by
  have noErrors : errors [reply] = [] := List.filterMap_cons_none accepts
  have any : [reply].any Reply.isAccepted = true := by simp [isAccepted_iff.mpr accepts]
  rw [outcome, any, warnings_eq_nil noErrors, if_pos rfl]

theorem outcome_failed {e : SendError} (failed : reply.error? = some e) :
    outcome quiet number failures last (reply :: replies) =
      let rest := outcome quiet number (failures + 1) e.message replies
      { rest with
        log := (if quiet then [] else attemptWarning number (failures + 1) e) ++ rest.log } := by
  have refused := isAccepted_of_error failed
  have log : warnings quiet number (failures + 1) (reply :: replies) =
      (if quiet then [] else attemptWarning number (failures + 1) e) ++
        warnings quiet number (failures + 1 + 1) replies := by
    rw [warnings, warnings, errors_cons failed]
    split <;> rfl
  simp only [outcome, List.any_cons, refused, Bool.false_or, log, errors_cons failed, List.map_cons,
    List.getLastD_cons]

/-- The runs of the attempts at a statement are the deliveries of it. -/
theorem runs_deliver_iff :
    (deliver c quiet number statement failures last : Interaction Delivery).Runs events d ↔
      ∃ replies, IsDelivery (c.retries + 1 - failures) replies ∧
        events = attempts c statement replies ∧
        d = outcome quiet number failures last replies := by
  induction left : (c.retries + 1 - failures).toNat generalizing failures last events d with
  | zero =>
      rw [deliver_eq, if_neg (by omega), Interaction.runs_pure_iff]
      constructor
      · rintro ⟨rfl, rfl⟩
        exact ⟨[], isDelivery_nil_iff.mpr (by omega), rfl, outcome_nil.symm⟩
      · rintro ⟨replies, allowed, rfl, rfl⟩
        have bounded := allowed.bounded
        obtain rfl := List.length_eq_zero_iff.mp (by omega : replies.length = 0)
        exact ⟨rfl, outcome_nil⟩
  | succ left ih =>
      have next : c.retries + 1 - failures - 1 = c.retries + 1 - (failures + 1 : Nat) := by omega
      rw [deliver_eq, if_pos (by omega), Interaction.runs_post_iff]
      constructor
      · rintro ⟨reply, rest, rfl, h⟩
        cases reads : reply.error? with
        | none =>
            rw [reads, Interaction.runs_pure_iff] at h
            obtain ⟨rfl, rfl⟩ := h
            have accepted := isAccepted_iff.mpr reads
            exact ⟨[reply], (isDelivery_accepted_iff accepted).mpr ⟨by omega, rfl⟩, rfl,
              (outcome_accepted reads).symm⟩
        | some e =>
            simp only [reads, Interaction.runs_bind_iff, Interaction.runs_pure_iff] at h
            obtain ⟨first, rest, _, rfl, front, rfl, rfl⟩ := h
            obtain ⟨replies, allowed, rfl, rfl⟩ := (ih (by omega)).mp front
            refine ⟨reply :: replies, (isDelivery_failed_iff (isAccepted_of_error reads)).mpr ?_,
              by simp [attempts], (outcome_failed reads).symm⟩
            rw [next]
            exact ⟨by omega, allowed⟩
      · rintro ⟨replies, allowed, rfl, rfl⟩
        cases replies with
        | nil =>
            have usedUp := isDelivery_nil_iff.mp allowed
            omega
        | cons reply replies =>
            refine ⟨reply, attempts c statement replies, rfl, ?_⟩
            cases reads : reply.error? with
            | none =>
                obtain ⟨-, rfl⟩ := (isDelivery_accepted_iff (isAccepted_iff.mpr reads)).mp allowed
                rw [outcome_accepted reads]
                exact .done _
            | some e =>
                obtain ⟨-, allowed⟩ := (isDelivery_failed_iff (isAccepted_of_error reads)).mp allowed
                rw [next] at allowed
                simp only [Interaction.runs_bind_iff, Interaction.runs_pure_iff]
                exact ⟨_, _, [], (List.append_nil _).symm,
                  (ih (by omega)).mpr ⟨replies, allowed, rfl, rfl⟩, rfl, outcome_failed reads⟩

end Deliver

/-! ## All statements -/

/-- The calls that attempt statements, those of one behind those of the other. -/
def allAttempts (c : Config) (statements : List Text) (replies : List (List Reply)) : List Event :=
  (statements.zip replies).flatMap fun (statement, own) => attempts c statement own

/-- The log of a statement with its replies. -/
def account (quiet : Bool) (number : Nat) (replies : List Reply) : Text :=
  warnings quiet number 1 replies ++
    if replies.any Reply.isAccepted then []
    else failureLine number (((errors replies).map (·.message)).getLastD [])

/-- What statements come to that are sent with numbers from a given one on. -/
structure Sends (c : Config) (quiet : Bool) (number : Nat) (statements : List Text)
    (replies : List (List Reply)) (before after : Summary) : Prop where
  each : replies.length = statements.length
  allowed : ∀ own ∈ replies, IsDelivery (c.retries + 1) own
  sent : after.sent = before.sent + replies.countP (·.any Reply.isAccepted)
  failed : after.failed = before.failed + replies.countP (!·.any Reply.isAccepted)
  log : after.log = before.log ++
    (replies.zipIdx number).flatMap fun (own, number) => account quiet number own

theorem addDelivery_outcome (quiet : Bool) (number : Nat) (own : List Reply) (before : Summary) :
    addDelivery number (outcome quiet number 0 [] own) before =
      { sent := before.sent + if own.any Reply.isAccepted then 1 else 0
        failed := before.failed + if own.any Reply.isAccepted then 0 else 1
        log := before.log ++ account quiet number own } := by
  rw [addDelivery, account, outcome]
  cases own.any Reply.isAccepted <;> simp

theorem sends_nil_iff {c : Config} {quiet : Bool} {number : Nat} {replies : List (List Reply)}
    {before after : Summary} :
    Sends c quiet number [] replies before after ↔ replies = [] ∧ after = before := by
  constructor
  · intro sends
    obtain rfl := List.length_eq_zero_iff.mp sends.each
    refine ⟨rfl, ?_⟩
    have log := sends.log
    rw [List.zipIdx_nil, List.flatMap_nil, List.append_nil] at log
    exact Summary.ext sends.sent sends.failed log
  · rintro ⟨rfl, rfl⟩
    exact ⟨rfl, nofun, rfl, rfl, by simp⟩

/-- Statements come to what the first one adds and then to what the others come to. -/
theorem sends_cons_iff {c : Config} {quiet : Bool} {number : Nat} {statement : Text}
    {statements : List Text} {own : List Reply} {replies : List (List Reply)}
    {before after : Summary} :
    Sends c quiet number (statement :: statements) (own :: replies) before after ↔
      IsDelivery (c.retries + 1) own ∧
        Sends c quiet (number + 1) statements replies
          (addDelivery number (outcome quiet number 0 [] own) before) after := by
  have sent : (own :: replies).countP (·.any Reply.isAccepted) =
      (if own.any Reply.isAccepted then 1 else 0) + replies.countP (·.any Reply.isAccepted) := by
    rw [List.countP_cons, Nat.add_comm]
  have failed : (own :: replies).countP (!·.any Reply.isAccepted) =
      (if own.any Reply.isAccepted then 0 else 1) + replies.countP (!·.any Reply.isAccepted) := by
    rw [List.countP_cons, Nat.add_comm]
    cases own.any Reply.isAccepted <;> rfl
  rw [addDelivery_outcome]
  constructor
  · intro sends
    obtain ⟨first, allowed⟩ := List.forall_mem_cons.mp sends.allowed
    refine ⟨first, Nat.succ.inj sends.each, allowed, ?_, ?_, ?_⟩
    · rw [sends.sent, sent, Nat.add_assoc]
    · rw [sends.failed, failed, Nat.add_assoc]
    · rw [sends.log, List.zipIdx_cons, List.flatMap_cons, List.append_assoc]
  · rintro ⟨first, sends⟩
    refine ⟨congrArg (· + 1) sends.each, List.forall_mem_cons.mpr ⟨first, sends.allowed⟩, ?_, ?_, ?_⟩
    · rw [sends.sent, sent, Nat.add_assoc]
    · rw [sends.failed, failed, Nat.add_assoc]
    · rw [sends.log, List.zipIdx_cons, List.flatMap_cons, List.append_assoc]

/-- The runs that send statements attempt one after the other. -/
theorem runs_sendFrom_iff {c : Config} {quiet : Bool} {number : Nat} {statements : List Text}
    {before after : Summary} {events : List Event} :
    (sendFrom c quiet number statements before : Interaction Summary).Runs events after ↔
      ∃ replies, events = allAttempts c statements replies ∧
        Sends c quiet number statements replies before after := by
  induction statements generalizing number before events with
  | nil =>
      simp only [sendFrom, Interaction.runs_pure_iff, sends_nil_iff]
      constructor
      · rintro ⟨rfl, rfl⟩
        exact ⟨[], rfl, rfl, rfl⟩
      · rintro ⟨_, rfl, rfl, rfl⟩
        exact ⟨rfl, rfl⟩
  | cons statement statements ih =>
      simp only [sendFrom, Interaction.runs_bind_iff, runs_deliver_iff, ih]
      constructor
      · rintro ⟨_, _, _, rfl, ⟨own, allowed, rfl, rfl⟩, replies, rfl, sends⟩
        exact ⟨own :: replies, rfl, sends_cons_iff.mpr ⟨by simpa using allowed, sends⟩⟩
      · rintro ⟨replies, rfl, sends⟩
        cases replies with
        | nil => cases sends.each
        | cons own replies =>
            obtain ⟨allowed, sends⟩ := sends_cons_iff.mp sends
            exact ⟨_, _, _, rfl, ⟨own, by simpa using allowed, rfl, rfl⟩, replies, rfl, sends⟩

/-- What statements come to. -/
theorem runs_sendAll_iff {c : Config} {quiet : Bool} {statements : List Text} {events : List Event}
    {summary : Summary} :
    (sendAll c quiet statements : Interaction Summary).Runs events summary ↔
      ∃ replies, events = allAttempts c statements replies ∧
        Sends c quiet 1 statements replies {} summary := runs_sendFrom_iff

end Upload

end SparqlMetrics
