import Mathlib.Data.List.Induction
import SparqlMetrics.Proofs.Command.Arguments
import SparqlMetrics.Proofs.Command.Deliveries
import SparqlMetrics.Proofs.Text.Leading

/-!
# Numbers among the options

A numeric option takes the number that its last value denotes, which is not negative and fits into a
signed word of 64 bits. The size of a batch is that number. Retries and the timeout are held in a
word of 32 bits, where a number from 2147483648 on becomes another one, often a negative one. A
statement is attempted once more than there are retries, and never when they are negative. Main
statement: `Options.read_numbers`.
-/
namespace SparqlMetrics

namespace Options

/-- An option that holds a number. -/
inductive Numeric where
  | batchSize | uploadRetries | timeoutMs
  deriving DecidableEq, Repr

namespace Numeric

def setting : Numeric → Setting
  | .batchSize => .batchSize
  | .uploadRetries => .uploadRetries
  | .timeoutMs => .timeoutMs

def field (o : Options) : Numeric → Int
  | .batchSize => o.batchSize
  | .uploadRetries => o.uploadRetries
  | .timeoutMs => o.timeoutMs

/-- Whether a numeric option is held in a word of 32 bits. -/
def isNarrow : Numeric → Bool
  | .batchSize => false
  | .uploadRetries => true
  | .timeoutMs => true

/-- What is held of a number. -/
def stored (n : Numeric) (v : Int) : Int := if n.isNarrow then wrap32 v else v

def put (n : Numeric) (o : Options) (m : Nat) : Options :=
  match n with
  | .batchSize => { o with batchSize := m }
  | .uploadRetries => { o with uploadRetries := wrap32 m }
  | .timeoutMs => { o with timeoutMs := wrap32 m }

/-- Whether options hold what there is room for of a number that is not negative: the number itself
when its option is wide or the number less than half of the range of 32 bits; something negative when
its option is narrow and its remainder is not. -/
structure Holds (n : Numeric) (o : Options) (v : Int) : Prop where
  nonneg : 0 ≤ v
  fits : v ≤ Text.maxInt64
  field_eq : n.field o = n.stored v
  kept_iff : n.field o = v ↔ (n.isNarrow = true → v < 2147483648)
  nonneg_iff : 0 ≤ n.field o ↔ (n.isNarrow = true → v % 4294967296 < 2147483648)

/-- The value that an item gives a numeric option. -/
def value? (n : Numeric) : Item → Option Text
  | .setting s value => if s = n.setting then some value else none
  | _ => none

/-- The last value that items give a numeric option. -/
def lastValue? (n : Numeric) (items : List Item) : Option Text :=
  (items.filterMap n.value?).getLast?

end Numeric

variable {o known changed : Options} {items : List Item} {arguments : List Text} {value : Text}
variable {n : Numeric} {v : Int}

/-- A number in a word of 32 bits, by its remainder. -/
theorem wrap32_eq (v : Int) :
    wrap32 v = if v % 4294967296 < 2147483648 then v % 4294967296
      else v % 4294967296 - 4294967296 := rfl

/-- A word of 32 bits holds a number as it is when it is less than half of the range. -/
theorem wrap32_eq_iff (positive : 0 ≤ v) : wrap32 v = v ↔ v < 2147483648 := by
  rw [wrap32_eq]
  omega

theorem wrap32_nonneg_iff : 0 ≤ wrap32 v ↔ v % 4294967296 < 2147483648 := by
  rw [wrap32_eq]
  omega

theorem Numeric.stored_eq_iff (positive : 0 ≤ v) :
    n.stored v = v ↔ (n.isNarrow = true → v < 2147483648) := by
  unfold stored
  split
  · next narrow => simp [narrow, wrap32_eq_iff positive]
  · next wide => simp [wide]

theorem Numeric.stored_nonneg_iff (positive : 0 ≤ v) :
    0 ≤ n.stored v ↔ (n.isNarrow = true → v % 4294967296 < 2147483648) := by
  unfold stored
  split
  · next narrow => simp [narrow, wrap32_nonneg_iff]
  · next wide => simp [wide, positive]

/-- A number is read when its text denotes it and it fits into a signed word of 64 bits. -/
theorem number_eq_ok_iff {flag : Text} {m : Nat} :
    number flag value = .ok m ↔ Text.Denotes value m ∧ (m : Int) ≤ Text.maxInt64 := by
  constructor
  · intro h
    unfold number at h
    split at h
    · cases h
    · cases h
    next w rest read =>
    split at h
    · next ends =>
      rw [Bool.and_eq_true, List.isEmpty_iff, decide_eq_true_eq] at ends
      obtain ⟨rfl, positive⟩ := ends
      obtain rfl := Except.ok.inj h
      rw [Int.toNat_of_nonneg positive]
      obtain ⟨denotes, -, fits⟩ := Text.denotes_of_leadingInteger read
      exact ⟨denotes, fits⟩
    · cases h
  · rintro ⟨denotes, fits⟩
    have inRange : ¬ ((m : Int) < Text.minInt64 ∨ Text.maxInt64 < (m : Int)) := by
      unfold Text.minInt64
      omega
    have read := Text.leadingInteger_of_denotes denotes
    rw [if_neg inRange] at read
    simp [number, read]

theorem Numeric.field_put_self (n : Numeric) (o : Options) (m : Nat) :
    n.field (n.put o m) = n.stored m := by
  cases n with
  | batchSize => rfl
  | uploadRetries => rw [put, field, stored, isNarrow, if_pos rfl]
  | timeoutMs => rw [put, field, stored, isNarrow, if_pos rfl]

theorem Numeric.field_put_other {k : Numeric} (other : k ≠ n) (o : Options) (m : Nat) :
    n.field (k.put o m) = n.field o := by
  cases k <;> cases n <;> first | exact absurd rfl other | rw [put, field, field]

/-- The setting of a numeric option reads a number and holds it; a batch of none is refused. -/
theorem Numeric.set_eq (n : Numeric) (o : Options) (value : Text) :
    n.setting.set o value = number (utf8 n.setting.flag) value >>= fun m =>
      if n = .batchSize ∧ m = 0 then .error .emptyBatch else .ok (n.put o m) := by
  cases n with
  | batchSize => simp only [setting, Setting.set, put, true_and]
  | uploadRetries => simp only [setting, Setting.set, put, reduceCtorEq, false_and, if_false]
  | timeoutMs => simp only [setting, Setting.set, put, reduceCtorEq, false_and, if_false]

theorem Numeric.exists_of_set (h : n.setting.set o value = .ok changed) :
    ∃ m : Nat, number (utf8 n.setting.flag) value = .ok m ∧ (n = .batchSize → 1 ≤ m) ∧
      changed = n.put o m := by
  rw [set_eq] at h
  cases read : number (utf8 n.setting.flag) value with
  | error e =>
      rw [read] at h
      cases h
  | ok m =>
      rw [read] at h
      change (if n = .batchSize ∧ m = 0 then _ else _) = _ at h
      split at h
      · cases h
      next filled =>
      have positive (same : n = .batchSize) : 1 ≤ m :=
        Nat.pos_of_ne_zero fun zero => filled ⟨same, zero⟩
      exact ⟨m, rfl, positive, (Except.ok.inj h).symm⟩

/-- A setting leaves every numeric option that is not its own. -/
theorem Numeric.field_of_set {s : Setting} (other : s ≠ n.setting)
    (h : s.set o value = .ok changed) : n.field changed = n.field o := by
  have numeric (k : Numeric) (own : s = k.setting) : n.field changed = n.field o := by
    subst own
    obtain ⟨m, -, -, rfl⟩ := exists_of_set h
    exact field_put_other (fun same => other (congrArg setting same)) o m
  cases s
  case batchSize => exact numeric .batchSize rfl
  case uploadRetries => exact numeric .uploadRetries rfl
  case timeoutMs => exact numeric .timeoutMs rfl
  all_goals
    obtain rfl := Except.ok.inj h
    cases n <;> rfl

/-- What an item does to a numeric option. -/
theorem Numeric.apply_cases {item : Item} (h : item.apply o = .ok changed) :
    n.value? item = none ∧ n.field changed = n.field o ∨
      ∃ value, ∃ m : Nat, n.value? item = some value ∧
        number (utf8 n.setting.flag) value = .ok m ∧ (n = .batchSize → 1 ≤ m) ∧
        n.field changed = n.stored m := by
  cases item with
  | lint query =>
      refine .inl ⟨rfl, ?_⟩
      cases query <;>
      · obtain rfl := Except.ok.inj h
        cases n <;> rfl
  | switch s =>
      refine .inl ⟨rfl, ?_⟩
      obtain rfl := Except.ok.inj h
      cases s <;> cases n <;> rfl
  | setting s value =>
      by_cases own : s = n.setting
      · subst own
        obtain ⟨m, read, positive, rfl⟩ := exists_of_set h
        exact .inr ⟨value, m, if_pos rfl, read, positive, field_put_self n o m⟩
      · exact .inl ⟨if_neg own, field_of_set own h⟩

theorem exists_of_applyAll_concat {item : Item}
    (h : o.applyAll (items ++ [item]) = .ok changed) :
    ∃ next, o.applyAll items = .ok next ∧ item.apply next = .ok changed := by
  have cut : o.applyAll (items ++ [item]) = o.applyAll items >>= fun next => item.apply next := by
    simp only [applyAll, List.foldlM_append, List.foldlM_cons, List.foldlM_nil, bind_pure]
  rw [cut] at h
  cases front : o.applyAll items with
  | error e =>
      rw [front] at h
      cases h
  | ok next =>
      rw [front] at h
      exact ⟨next, rfl, h⟩

/-- Behind items a numeric option holds the number of its last value. -/
theorem Numeric.applyAll_cases (h : o.applyAll items = .ok changed) :
    n.lastValue? items = none ∧ n.field changed = n.field o ∨
      ∃ value, ∃ m : Nat, n.lastValue? items = some value ∧
        number (utf8 n.setting.flag) value = .ok m ∧ n.field changed = n.stored m := by
  induction items using List.reverseRecOn generalizing changed with
  | nil =>
      obtain rfl := Except.ok.inj h
      exact .inl ⟨rfl, rfl⟩
  | append_singleton front item ih =>
      obtain ⟨next, before, last⟩ := exists_of_applyAll_concat h
      rw [lastValue?, List.filterMap_append]
      rcases n.apply_cases last with ⟨other, same⟩ | ⟨value, m, own, read, -, held⟩
      · rw [List.filterMap_cons_none other, List.filterMap_nil, List.append_nil, same]
        exact ih before
      · rw [List.filterMap_cons_some own, List.filterMap_nil, List.getLast?_concat]
        exact .inr ⟨value, m, rfl, read, held⟩

theorem take_of_read (h : known.read arguments = .ok o) : known.take arguments = .ok o := by
  unfold read at h
  split at h
  · cases h
  split at h
  · cases h
  next taken _ =>
  rwa [← Except.ok.inj h]

/-- Of accepted arguments each numeric option holds what there is room for of the number that its
last value denotes; without a value it stays as it was. Whatever statements are then sent, and
whatever the transport replies, a statement is attempted unless the retries are negative. -/
theorem read_numbers (h : known.read arguments = .ok o) :
    (∃ items, Spells items arguments) ∧
      (∀ items, Spells items arguments → ∀ n : Numeric,
        (n.lastValue? items = none → n.field o = n.field known) ∧
        ∀ value, n.lastValue? items = some value →
          (∃ v, Text.Denotes value v) ∧ ∀ v, Text.Denotes value v → n.Holds o v) ∧
      ∀ quiet statements events summary,
        (Upload.sendAll o.upload quiet statements : Interaction Upload.Summary).Runs
            events summary ↔
          ∃ replies, events = Upload.allAttempts o.upload statements replies ∧
            Upload.Sends o.upload quiet 1 statements replies {} summary ∧
            ∀ own ∈ replies, 1 ≤ own.length ↔ 0 ≤ o.uploadRetries := by
  have taken := take_of_read h
  refine ⟨exists_spells taken, ?_, ?_⟩
  · intro items spelled n
    rw [take_of_spells spelled] at taken
    rcases n.applyAll_cases taken with ⟨absent, same⟩ | ⟨last, m, present, read, held⟩
    · constructor
      · exact fun _ => same
      · intro value present
        rw [absent] at present
        cases present
    · obtain ⟨denotes, fits⟩ := number_eq_ok_iff.mp read
      constructor
      · intro absent
        rw [present] at absent
        cases absent
      · intro value same
        obtain rfl := Option.some.inj (present.symm.trans same)
        refine ⟨⟨m, denotes⟩, fun v other => ?_⟩
        obtain rfl := denotes.unique other
        have nonneg : (0 : Int) ≤ m := Int.natCast_nonneg m
        exact ⟨nonneg, fits, held, held ▸ Numeric.stored_eq_iff nonneg,
          held ▸ Numeric.stored_nonneg_iff nonneg⟩
  · intro quiet statements events summary
    rw [Upload.runs_sendAll_iff]
    constructor
    · rintro ⟨replies, attempted, sends⟩
      refine ⟨replies, attempted, sends, fun own among => ?_⟩
      exact (sends.allowed own among).one_le_length_iff.trans (Int.lt_add_one_iff)
    · rintro ⟨replies, attempted, sends, -⟩
      exact ⟨replies, attempted, sends⟩

/-- With 4294967295 retries there are none and no attempt, whatever the transport would reply. -/
theorem read_numbers_wrapped :
    let arguments := [utf8 "--upload-retries", utf8 "4294967295"]
    let o : Options := { uploadRetries := -1 }
    ({} : Options).read arguments = .ok o ∧
      Spells [.setting .uploadRetries (utf8 "4294967295")] arguments ∧
      Text.Denotes (utf8 "4294967295") 4294967295 ∧ o.uploadRetries ≠ 4294967295 ∧
      (∃ summary, (Upload.sendAll o.upload false [utf8 "INSERT"] :
        Interaction Upload.Summary).Runs [] summary) ∧
      ∀ events summary, (Upload.sendAll o.upload false [utf8 "INSERT"] :
          Interaction Upload.Summary).Runs events summary →
        events = [] ∧ summary.sent = 0 ∧ summary.failed = 1 ∧
          summary.log = utf8 "error: statement 1 not uploaded: \n" := by
  have accepted : ({} : Options).read [utf8 "--upload-retries", utf8 "4294967295"] =
      .ok { uploadRetries := -1 } := by decide
  have spelled : Spells [.setting .uploadRetries (utf8 "4294967295")]
      [utf8 "--upload-retries", utf8 "4294967295"] := .setting .uploadRetries _ .nil
  have denotes : Text.Denotes (utf8 "4294967295") (4294967295 : Nat) :=
    (number_eq_ok_iff.mp (by decide : number [] (utf8 "4294967295") = .ok 4294967295)).1
  obtain ⟨-, numbers, runs⟩ := read_numbers accepted
  have holds := ((numbers _ spelled .uploadRetries).2 _ rfl).2 _ denotes
  refine ⟨accepted, spelled, denotes, fun same => ?_, ?_, fun events summary h => ?_⟩
  · exact absurd (holds.kept_iff.mp same rfl) (by decide)
  · have usedUp : Upload.IsDelivery 0 [] := Upload.isDelivery_nil_iff.mpr (by decide)
    have sends : Upload.Sends ({ uploadRetries := -1 } : Options).upload false 1 [utf8 "INSERT"]
        [[]] {} { failed := 1, log := Upload.failureLine 1 [] } :=
      ⟨rfl, List.forall_mem_singleton.mpr usedUp, rfl, rfl, by decide +kernel⟩
    exact ⟨_, (runs false [utf8 "INSERT"] [] _).mpr ⟨[[]], rfl, sends, by decide⟩⟩
  · obtain ⟨replies, rfl, sends, attempted⟩ := (runs false [utf8 "INSERT"] events summary).mp h
    obtain ⟨own, rfl⟩ := List.length_eq_one_iff.mp sends.each
    have unattempted : own = [] := by
      have never := (attempted own (List.mem_singleton_self own)).not
      exact List.length_eq_zero_iff.mp (by simpa using never)
    subst unattempted
    exact ⟨rfl, sends.sent, sends.failed, sends.log.trans (by decide +kernel)⟩

end Options

end SparqlMetrics
