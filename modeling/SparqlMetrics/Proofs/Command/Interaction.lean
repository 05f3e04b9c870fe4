import SparqlMetrics.Command.DatasetRun

/-!
# What a program asks of its surroundings

A program that is written for every monad with files, a transport, a clock and a source of random
bits is run here as an interaction: a tree of calls, which goes on with the answer to each. A run of
an interaction is a list of calls with their answers, and every answer is possible, whatever was
answered before. So what is proved of every run holds in all surroundings. Main definitions:
`Interaction`, `Interaction.Runs`.
-/
namespace SparqlMetrics

/-- What a program may ask. -/
inductive Call where
  | readFile (path : Text)
  | makeDirectories (path : Text)
  | writeFile (path content : Text)
  | post (request : Upload.Request)
  | seconds
  | randomBits

/-- What may be answered. -/
@[reducible] def Call.Answer : Call → Type
  | readFile _ => Option Text
  | makeDirectories _ => Except FileError Unit
  | writeFile _ _ => Except WriteError Unit
  | post _ => Upload.Reply
  | seconds => Nat
  | randomBits => Nat

/-- A call with its answer. -/
structure Event where
  call : Call
  answer : call.Answer

inductive Interaction (α : Type) where
  | done (result : α)
  | ask (call : Call) (next : call.Answer → Interaction α)

namespace Interaction

variable {α β : Type}

/-- Goes on with the result of an interaction. -/
def bind (p : Interaction α) (f : α → Interaction β) : Interaction β :=
  match p with
  | done result => f result
  | ask call next => ask call fun answer => (next answer).bind f

instance : Monad Interaction where
  pure := done
  bind := bind

instance : MonadFiles Interaction where
  readFile path := ask (.readFile path) done
  makeDirectories path := ask (.makeDirectories path) done
  writeFile path content := ask (.writeFile path content) done

instance : MonadTransport Interaction := ⟨fun request => ask (.post request) done⟩

instance : MonadClock Interaction := ⟨ask .seconds done⟩

instance : MonadRandom Interaction := ⟨ask .randomBits done⟩

/-- The runs of an interaction with their results. -/
inductive Runs : Interaction α → List Event → α → Prop where
  | done (result : α) : Runs (done result) [] result
  | ask {call : Call} {next : call.Answer → Interaction α} {events : List Event} {result : α}
      (answer : call.Answer) (rest : Runs (next answer) events result) :
      Runs (ask call next) (⟨call, answer⟩ :: events) result

section Runs

variable {p : Interaction α} {f : α → Interaction β} {events : List Event} {result last : α}

@[simp] theorem runs_pure_iff : Runs (pure result) events last ↔ events = [] ∧ last = result := by
  constructor
  · intro h
    cases h
    exact ⟨rfl, rfl⟩
  · rintro ⟨rfl, rfl⟩
    exact .done last

theorem runs_ask_iff {call : Call} {next : call.Answer → Interaction α} :
    Runs (.ask call next) events result ↔
      ∃ answer rest, events = ⟨call, answer⟩ :: rest ∧ Runs (next answer) rest result := by
  constructor
  · intro h
    cases h with
    | ask answer rest => exact ⟨answer, _, rfl, rest⟩
  · rintro ⟨answer, rest, rfl, h⟩
    exact .ask answer h

/-- A run of one interaction behind another is a run of the one and then one of the other. -/
theorem runs_bind_iff {last : β} : Runs (p >>= f) events last ↔
    ∃ first middle behind, events = first ++ behind ∧ Runs p first middle ∧
      Runs (f middle) behind last := by
  induction p generalizing events with
  | done result =>
      constructor
      · exact fun h => ⟨[], result, events, rfl, .done result, h⟩
      · rintro ⟨first, middle, behind, rfl, ⟨⟩, h⟩
        exact h
  | ask call next ih =>
      change Runs (.ask call fun answer => next answer >>= f) events last ↔ _
      rw [runs_ask_iff]
      constructor
      · rintro ⟨answer, rest, rfl, h⟩
        obtain ⟨first, middle, behind, rfl, front, back⟩ := ih answer |>.mp h
        exact ⟨⟨call, answer⟩ :: first, middle, behind, rfl, .ask answer front, back⟩
      · rintro ⟨first, middle, behind, rfl, front, back⟩
        cases front with
        | ask answer front =>
            exact ⟨answer, _, rfl, (ih answer).mpr ⟨_, middle, behind, rfl, front, back⟩⟩

/-! An interaction that opens with a call goes on with the answer. -/

theorem runs_readFile_iff {path : Text} {f : Option Text → Interaction α} :
    Runs (MonadFiles.readFile path >>= f) events result ↔
      ∃ content rest, events = ⟨.readFile path, content⟩ :: rest ∧ Runs (f content) rest result :=
  runs_ask_iff

theorem runs_makeDirectories_iff {path : Text} {f : Except FileError Unit → Interaction α} :
    Runs (MonadFiles.makeDirectories path >>= f) events result ↔
      ∃ made rest, events = ⟨.makeDirectories path, made⟩ :: rest ∧ Runs (f made) rest result :=
  runs_ask_iff

theorem runs_writeFile_iff {path content : Text} {f : Except WriteError Unit → Interaction α} :
    Runs (MonadFiles.writeFile path content >>= f) events result ↔
      ∃ written rest, events = ⟨.writeFile path content, written⟩ :: rest ∧
        Runs (f written) rest result :=
  runs_ask_iff

theorem runs_post_iff {request : Upload.Request} {f : Upload.Reply → Interaction α} :
    Runs (MonadTransport.post request >>= f) events result ↔
      ∃ reply rest, events = ⟨.post request, reply⟩ :: rest ∧ Runs (f reply) rest result :=
  runs_ask_iff

theorem runs_seconds_iff {f : Nat → Interaction α} :
    Runs (MonadClock.seconds >>= f) events result ↔
      ∃ seconds rest, events = ⟨.seconds, seconds⟩ :: rest ∧ Runs (f seconds) rest result :=
  runs_ask_iff

theorem runs_randomBits_iff {f : Nat → Interaction α} :
    Runs (MonadRandom.randomBits >>= f) events result ↔
      ∃ bits rest, events = ⟨.randomBits, bits⟩ :: rest ∧ Runs (f bits) rest result :=
  runs_ask_iff

end Runs

/-- Whatever is answered, there is a run. -/
theorem exists_runs (answers : (call : Call) → call.Answer) (p : Interaction α) :
    ∃ events result, Runs p events result ∧
      ∀ event ∈ events, event.answer = answers event.call := by
  induction p with
  | done result => exact ⟨[], result, .done result, nofun⟩
  | ask call next ih =>
      obtain ⟨events, result, runs, same⟩ := ih (answers call)
      exact ⟨⟨call, answers call⟩ :: events, result, .ask _ runs,
        List.forall_mem_cons.mpr ⟨rfl, same⟩⟩

end Interaction

end SparqlMetrics
