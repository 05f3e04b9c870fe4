import SparqlMetrics.Proofs.Token.Readers
import SparqlMetrics.Proofs.Token.Written

/-!
# Reading in front of white space

A lexeme ends where its reader stands still, and a reader looks at the bytes behind only to see that
none of them goes on with it. White space goes on with no lexeme, nor does the end of a text. So a
lexeme is read alike when the text behind it breaks off with white space at some place, and when
nothing or white space stands right behind it. `Respaced s t` says that `t` goes on like `s` does up
to white space, `Detached t` that `t` is empty or opens with white space, and `StandsIn s t` is
either. Most readers allow more, that the text ends at any place as well, `Broken s t`; a backslash
in a local name does not, as it takes the byte behind it whatever that is. For the same reason a text
that ends with one goes on with white space differently. Main statement: `Lexeme.read_locally`.
-/
namespace SparqlMetrics

def Byte.whites : List Byte := [tab, newline, 0x0B, formFeed, carriageReturn, space]

theorem Byte.of_isSpace {P : Byte → Prop} [DecidablePred P] {b : Byte} (white : b.isSpace = true)
    (h : whites.all (P ·) = true) : P b := by
  have member : b ∈ whites :=
    forall_of_digits (P := fun b => b.isSpace = true → b ∈ whites) (by decide) b white
  exact of_decide_eq_true (List.all_eq_true.mp h b member)

theorem Byte.whites_ne {mark : Byte} (solid : mark.isSpace = false) :
    whites.all (fun c => (c == mark) = false) = true := by
  refine List.all_eq_true.mpr fun c member => decide_eq_true (beq_eq_false_iff_ne.mpr ?_)
  rintro rfl
  rw [List.all_eq_true.mp (by decide : whites.all isSpace = true) c member] at solid
  cases solid

/-- A text that is empty or opens with white space. -/
def Detached (t : Text) : Prop := ∀ b, t.head? = some b → b.isSpace = true

/-- A text, and one that goes on like it or breaks off with white space, before its end or at it. A
backslash at the end would take the white space into a local name, behind dots as well. -/
inductive Respaced : Text → Text → Prop
  | refl (s : Text) : Respaced s s
  | space {b : Byte} {s t : Text} : b.isSpace = true → s ≠ [] → Respaced s (b :: t)
  | ends {s t : Text} : s ≠ [] → s.dropWhile (· == Byte.dot) ≠ [Byte.backslash] → Detached t →
      Respaced s (s ++ t)
  | cons {b : Byte} {s t : Text} : Respaced s t → Respaced (b :: s) (b :: t)

/-- A text, and one that may stand behind a lexeme in its place. -/
def StandsIn (s t : Text) : Prop := Respaced s t ∨ Detached t

/-- A text, and one that goes on like it, or breaks off with white space or at its end. -/
inductive Broken : Text → Text → Prop
  | refl (s : Text) : Broken s s
  | nil (s : Text) : Broken s []
  | space {b : Byte} {s t : Text} : b.isSpace = true → Broken s (b :: t)
  | cons {b : Byte} {s t : Text} : Broken s t → Broken (b :: s) (b :: t)

namespace Detached

variable {p : Byte → Bool} {t : Text}

theorem nil : Detached [] := nofun

theorem cons {b : Byte} (white : b.isSpace = true) : Detached (b :: t) := by
  intro c same
  rwa [← Option.some.inj same]

theorem stopsAt (h : Detached t) (white : Byte.whites.all (p · = false) = true) : StopsAt p t :=
  fun b first => Byte.of_isSpace (h b first) white

end Detached

namespace Respaced

variable {p : Byte → Bool} {s t : Text}

theorem eq_nil (h : Respaced [] t) : t = [] := by
  cases h with
  | refl => rfl
  | space _ some => exact absurd rfl some
  | ends some => exact absurd rfl some

theorem append (w : Text) (h : Respaced s t) : Respaced (w ++ s) (w ++ t) := by
  induction w with
  | nil => exact h
  | cons b w ih => exact ih.cons

end Respaced

namespace Broken

variable {p : Byte → Bool} {s t : Text}

theorem append (w : Text) (h : Broken s t) : Broken (w ++ s) (w ++ t) := by
  induction w with
  | nil => exact h
  | cons b w ih => exact ih.cons

theorem stopsAt (h : Broken s t) (stop : StopsAt p s)
    (white : Byte.whites.all (p · = false) = true) : StopsAt p t := by
  cases h with
  | refl => exact stop
  | nil => exact stopsAt_nil p
  | space isWhite => exact stopsAt_cons (Byte.of_isSpace isWhite white)
  | cons => exact stopsAt_cons (stop _ rfl)

/-- Where no byte of a class is ahead, none is ahead afterwards. -/
theorem takeWhile_eq_nil (h : Broken s t) (white : Byte.whites.all (p · = false) = true)
    (nothing : s.takeWhile p = []) : t.takeWhile p = [] := by
  refine StopsAt.takeWhile (h.stopsAt (fun b first => ?_) white)
  cases s with
  | nil => cases first
  | cons c rest =>
      obtain rfl : c = b := Option.some.inj first
      cases inside : p c with
      | false => rfl
      | true => simp [inside] at nothing

/-- A run of bytes goes to its end, or it breaks off. -/
theorem run (h : Broken s t) (white : Byte.whites.all (p · = false) = true) :
    (t.takeWhile p = s.takeWhile p ∧ Broken (s.dropWhile p) (t.dropWhile p)) ∨
      Detached (t.dropWhile p) := by
  induction h with
  | refl s => exact .inl ⟨rfl, .refl _⟩
  | nil s => exact .inr .nil
  | @space b _ t isWhite =>
      have stop : p b = false := Byte.of_isSpace isWhite white
      rw [List.dropWhile_cons_of_neg (by simp [stop])]
      exact .inr (.cons isWhite)
  | @cons b s t rest ih =>
      cases go : p b with
      | true => simpa [go] using ih
      | false => exact .inl ⟨by simp [go], by simpa [go] using rest.cons⟩

end Broken

theorem Detached.broken {t : Text} (h : Detached t) (s : Text) : Broken s t := by
  cases t with
  | nil => exact .nil s
  | cons b t => exact .space (h b rfl)

theorem Respaced.broken {s t : Text} (h : Respaced s t) : Broken s t := by
  induction h with
  | refl s => exact .refl s
  | space white _ => exact .space white
  | @ends s t _ _ detached => simpa using (detached.broken []).append s
  | cons _ ih => exact ih.cons

/-- What goes on with a byte as another text does. A dot at the front goes before a text that stands
in for the one behind the dot, and nothing stands behind a backslash at the end. -/
structure Continues (b : Byte) (s t : Text) : Prop where
  broken : Broken s t
  dot : b = Byte.dot → StandsIn s t
  backslash : b = Byte.backslash → s = [] → t = []

/-- A text behind a byte either goes on with that byte or opens with white space. -/
theorem Respaced.behind {b : Byte} {s t : Text} (h : Respaced (b :: s) t) :
    (∃ s', t = b :: s' ∧ Continues b s s') ∨ ∃ c s', t = c :: s' ∧ c.isSpace = true := by
  cases h with
  | refl => exact .inl ⟨s, rfl, .refl s, fun _ => .inl (.refl s), fun _ last => last⟩
  | space white => exact .inr ⟨_, _, rfl, white⟩
  | @ends _ t _ dry detached =>
      refine .inl ⟨s ++ t, rfl, ?_, ?_, ?_⟩
      · simpa using (detached.broken []).append s
      · rintro rfl
        by_cases last : s = []
        · exact .inr (last ▸ detached)
        · exact .inl (.ends last dry detached)
      · rintro rfl rfl
        exact absurd rfl dry
  | cons rest =>
      refine .inl ⟨_, rfl, rest.broken, fun _ => .inl rest, ?_⟩
      rintro _ rfl
      exact rest.eq_nil

theorem StandsIn.broken {s t : Text} (h : StandsIn s t) : Broken s t := by
  obtain respaced | detached := h
  · exact respaced.broken
  · exact detached.broken s

/-- Whether a reader takes a word of a text and leaves the text behind it, with the same result in
front of every text that is related to the one behind. -/
def ReadsLocally {ρ : Type} (related : Text → Text → Prop) (read result : Text → ρ)
    (s behind : Text) : Prop :=
  ∃ word, s = word ++ behind ∧ ∀ t, related behind t → read (word ++ t) = result t

theorem ReadsLocally.follows {ρ : Type} {read result : Text → ρ} {s behind : Text}
    (h : ReadsLocally Broken read result s behind) : ReadsLocally StandsIn read result s behind := by
  obtain ⟨word, same, alike⟩ := h
  exact ⟨word, same, fun t follows => alike t follows.broken⟩

theorem ReadsLocally.ok {ρ ε : Type} {related : Text → Text → Prop} {read result : Text → ρ}
    {s behind : Text} (h : ReadsLocally related read result s behind) :
    ReadsLocally related (fun t => (.ok (read t) : Except ε ρ)) (fun t => .ok (result t)) s
      behind := by
  obtain ⟨word, same, alike⟩ := h
  exact ⟨word, same, fun t follows => congrArg Except.ok (alike t follows)⟩

namespace Lexeme

section Runs
variable {p : Byte → Bool} {s t : Text}

theorem stopsAt_dropWhile (p : Byte → Bool) (s : Text) : StopsAt p (s.dropWhile p) := by
  intro b first
  simpa [first] using List.head?_dropWhile_not p s

theorem takeWhile_broken (white : Byte.whites.all (p · = false) = true)
    (h : Broken (s.dropWhile p) t) : (s.takeWhile p ++ t).takeWhile p = s.takeWhile p :=
  takeWhile_run (List.all_eq_true.mp List.all_takeWhile) (h.stopsAt (stopsAt_dropWhile p s) white)

theorem dropWhile_broken (white : Byte.whites.all (p · = false) = true)
    (h : Broken (s.dropWhile p) t) : (s.takeWhile p ++ t).dropWhile p = t :=
  dropWhile_run (List.all_eq_true.mp List.all_takeWhile) (h.stopsAt (stopsAt_dropWhile p s) white)

end Runs

theorem iriReference?_locally {s reference behind : Text}
    (h : iriReference? s = some (reference, behind)) :
    ReadsLocally Broken iriReference? (fun t => some (reference, t)) s behind := by
  induction s generalizing reference with
  | nil => cases h
  | cons b rest ih =>
      simp only [iriReference?] at h
      split at h
      · next close =>
        obtain ⟨rfl, rfl⟩ := Prod.mk.inj (Option.some.inj h)
        exact ⟨[b], rfl, fun t _ => by simp [iriReference?, close]⟩
      · next more =>
        split at h
        · cases h
        · next allowed =>
          obtain ⟨⟨inner, after⟩, found, same⟩ := Option.map_eq_some_iff.mp h
          obtain ⟨rfl, rfl⟩ := Prod.mk.inj same
          obtain ⟨word, rfl, alike⟩ := ih found
          exact ⟨b :: word, rfl, fun t follows => by
            simp [iriReference?, more, allowed, alike t follows]⟩

/-- No reference is ahead where none was, as white space stands in no reference. -/
theorem iriReference?_broken {s t : Text} (h : iriReference? s = none) (follows : Broken s t) :
    iriReference? t = none := by
  induction follows with
  | refl => exact h
  | nil => rfl
  | @space b _ t white =>
      have forbidden : (b == Byte.greater) = false ∧ isIriForbidden b = true :=
        Byte.of_isSpace (P := fun b => (b == Byte.greater) = false ∧ isIriForbidden b = true) white
          (by decide)
      simp [iriReference?, forbidden.1, forbidden.2]
  | @cons b s t _ ih =>
      simp only [iriReference?] at h ⊢
      split at h
      · cases h
      · split at h
        · next more forbidden => simp [more, forbidden]
        · next more allowed => simp [more, allowed, ih (Option.map_eq_none_iff.mp h)]

/-- Whether a long string closes is told by three bytes. -/
theorem closesLong_append {mark : Byte} {word : Text} (enough : 3 ≤ word.length) (s t : Text) :
    closesLong mark (word ++ s) = closesLong mark (word ++ t) := by
  match word, enough with
  | _ :: _ :: _ :: _, _ => rfl

theorem append_of_closesLong {mark : Byte} (quote : mark.isSpace = false) {s : Text}
    (h : closesLong mark s = true) :
    ∃ word, word.length = 2 ∧ s = word ++ s.drop 2 ∧ ∀ t, Broken (s.drop 2) t →
      closesLong mark (word ++ t) = true := by
  match s, h with
  | a :: b :: rest, h =>
      simp only [closesLong, Bool.and_eq_true, bne_iff_ne, ne_eq] at h
      refine ⟨[a, b], rfl, rfl, fun t follows => ?_⟩
      have avoids : StopsAt (· == mark) rest := fun c first => by
        rw [beq_eq_false_iff_ne]
        exact fun same => h.2 (same ▸ first)
      have stop := follows.stopsAt avoids (Byte.whites_ne quote)
      have other : t.head? ≠ some mark := fun first => absurd (stop mark first) (by simp)
      simp [closesLong, h.1, other]

/-- A string's body is read alike; a long one has its three closing quotes before its end. -/
theorem Scans.locally {mark : Byte} {long : Bool} {state : StringState}
    (quote : mark.isSpace = false) {s value behind : Text} (h : Scans mark long state s value behind) :
    ∃ word, s = word ++ behind ∧ (long = true → 3 ≤ word.length) ∧ ∀ t,
      Broken behind t → Scans mark long state (word ++ t) value t := by
  induction h with
  | close short =>
      exact ⟨[mark], rfl, fun isLong => absurd (short.symm.trans isLong) (by decide),
        fun _ _ => .close short⟩
  | closeLong isLong closes =>
      obtain ⟨word, two, same, alike⟩ := append_of_closesLong quote closes
      refine ⟨mark :: word, congrArg (mark :: ·) same, fun _ => by simp [two], fun t follows => ?_⟩
      have closed := Scans.closeLong isLong (alike t follows)
      rwa [List.drop_left' two] at closed
  | @step _ _ b _ _ _ _ moves _ ih =>
      obtain ⟨word, rfl, enough, alike⟩ := ih
      exact ⟨b :: word, rfl, fun isLong => Nat.le_succ_of_le (enough isLong), fun t follows =>
        .step (moves.congr fun isLong => closesLong_append (enough isLong) _ _) (alike t follows)⟩

theorem isPrefixOf_broken {mark : Byte} (quote : mark.isSpace = false) {word behind t : Text}
    (nonempty : word ≠ []) (h : Broken behind t)
    (short : [mark, mark].isPrefixOf (word ++ behind) = false) :
    [mark, mark].isPrefixOf (word ++ t) = false := by
  match word, nonempty with
  | a :: b :: more, _ => simpa [List.isPrefixOf] using short
  | [a], _ =>
      simp only [List.cons_append, List.nil_append, List.isPrefixOf] at short ⊢
      cases isMark : mark == a with
      | false => rfl
      | true =>
          rw [isMark, Bool.true_and] at short
          rw [Bool.true_and]
          have stop : StopsAt (mark == ·) t := by
            refine h.stopsAt (fun c first => ?_) (by simpa only [BEq.comm] using Byte.whites_ne quote)
            cases behind with
            | nil => cases first
            | cons d rest => simpa [List.isPrefixOf, Option.some.inj first] using short
          cases t with
          | nil => rfl
          | cons c rest =>
              have other : (mark == c) = false := stop c rfl
              simp [List.isPrefixOf, other]

theorem readString_locally {mark : Byte} (quote : mark.isSpace = false) {s behind : Text}
    {l : Lexeme} (h : readString mark s = .ok (l, behind)) :
    ReadsLocally Broken (readString mark) (fun t => .ok (l, t)) s behind := by
  simp only [readString] at h
  split at h
  · next value after found =>
    obtain ⟨rfl, rfl⟩ := Prod.mk.inj (Except.ok.inj h)
    cases isLong : [mark, mark].isPrefixOf s with
    | true =>
        obtain ⟨inner, rfl⟩ := List.isPrefixOf_iff_prefix.mp isLong
        simp only [isLong, if_true] at found
        obtain ⟨word, same, _, alike⟩ := (scans_of_stringBody found).locally quote
        refine ⟨[mark, mark] ++ word, congrArg ([mark, mark] ++ ·) same, fun t follows => ?_⟩
        have isLong' : [mark, mark].isPrefixOf ([mark, mark] ++ word ++ t) = true := by simp
        simp only [readString, isLong', if_true]
        rw [show ([mark, mark] ++ word ++ t).drop 2 = word ++ t from rfl,
          (alike t follows).stringBody]
    | false =>
        simp only [isLong, Bool.false_eq_true, if_false] at found
        have shorter := length_of_stringBody found
        obtain ⟨word, rfl, _, alike⟩ := (scans_of_stringBody found).locally quote
        have nonempty : word ≠ [] := by
          rintro rfl
          simp at shorter
        refine ⟨word, rfl, fun t follows => ?_⟩
        simp only [readString, isPrefixOf_broken quote nonempty follows isLong, Bool.false_eq_true,
          if_false]
        rw [(alike t follows).stringBody]
  · cases h

theorem readVariable?_locally {s behind : Text} {l : Lexeme}
    (h : readVariable? s = some (l, behind)) :
    ReadsLocally Broken readVariable? (fun t => some (l, t)) s behind := by
  simp only [readVariable?] at h
  split at h
  · cases h
  · next nonempty =>
    obtain ⟨rfl, rfl⟩ := Prod.mk.inj (Option.some.inj h)
    refine ⟨s.takeWhile Byte.isNameByte, (List.takeWhile_append_dropWhile).symm,
      fun t follows => ?_⟩
    rw [readVariable?, takeWhile_broken (by decide) follows,
      dropWhile_broken (by decide) follows]
    simp only [nonempty, Bool.false_eq_true, if_false]

theorem readVariable?_broken {s t : Text} (h : readVariable? s = none) (follows : Broken s t) :
    readVariable? t = none := by
  simp only [readVariable?] at h
  split at h
  · next empty =>
    have noName := follows.takeWhile_eq_nil (by decide) (List.isEmpty_iff.mp empty)
    simp [readVariable?, noName]
  · cases h

theorem readLanguageTag_locally {s behind : Text} {l : Lexeme}
    (h : readLanguageTag s = .ok (l, behind)) :
    ReadsLocally Broken readLanguageTag (fun t => .ok (l, t)) s behind := by
  simp only [readLanguageTag] at h
  split at h
  · next opens =>
    obtain ⟨rfl, rfl⟩ := Prod.mk.inj (Except.ok.inj h)
    refine ⟨s.takeWhile isTagByte, (List.takeWhile_append_dropWhile).symm, fun t follows => ?_⟩
    rw [readLanguageTag, takeWhile_broken (by decide) follows,
      dropWhile_broken (by decide) follows]
    simp only [opens, if_true]
  · cases h

/-- Whether no two hexadecimal digits are ahead. -/
def NoHexPair (s : Text) : Prop :=
  ∀ high low rest, s = high :: low :: rest → (high.isHexDigit && low.isHexDigit) = false

theorem noHexPair_broken {s t : Text} (h : NoHexPair s) (follows : Broken s t) :
    NoHexPair t := by
  rintro high low rest rfl
  have white : ∀ {c : Byte}, c.isSpace = true → c.isHexDigit = false :=
    fun isWhite => Byte.of_isSpace (P := fun b => b.isHexDigit = false) isWhite (by decide)
  cases follows with
  | refl => exact h high low rest rfl
  | space isWhite => simp [white isWhite]
  | cons tail =>
      cases tail with
      | refl => exact h high low rest rfl
      | space isWhite => simp [white isWhite]
      | cons => exact h high low _ rfl

theorem localName_percent {blank : Bool} {b : Byte} {s : Text}
    (plain : ¬(b == Byte.backslash && !blank) = true) (percent : (b == Byte.percent && !blank) = true)
    (h : NoHexPair s) : localName blank (b :: s) = ([], b :: s) := by
  rw [localName.eq_def]
  obtain _ | ⟨high, _ | ⟨low, rest⟩⟩ := s
  · simp [plain, percent]
  · simp [plain, percent]
  · have noPair := h high low rest rfl
    simp only [plain, percent, noPair, Bool.false_eq_true, if_false, if_true]

/-- Whether a local name is read alike in front of every text that stands in for the one behind. A
reader that finds no name takes nothing. -/
def NamesLocally (blank : Bool) (s name behind : Text) : Prop :=
  ∃ word, s = word ++ behind ∧ (name = [] → word = []) ∧ ∀ t, StandsIn behind t →
    localName blank (word ++ t) = (name, t)

/-- Where nothing or white space is ahead no name is read. -/
theorem localName_detached {blank : Bool} {t : Text} (h : Detached t) :
    localName blank t = ([], t) :=
  localName_of_breaks (h.stopsAt (by decide))

/-- A byte that opens no name. -/
theorem NamesLocally.stop {blank : Bool} {b : Byte} {rest : Text}
    (h : ∀ t, Continues b rest t → localName blank (b :: t) = ([], b :: t)) :
    NamesLocally blank (b :: rest) [] (b :: rest) := by
  refine ⟨[], rfl, fun _ => rfl, fun t follows => ?_⟩
  obtain respaced | detached := follows
  · rcases respaced.behind with ⟨t, rfl, continues⟩ | ⟨c, t, rfl, isWhite⟩
    · exact h t continues
    · exact localName_detached (.cons isWhite)
  · exact localName_detached detached

/-- A part of a name in front of a name. -/
theorem NamesLocally.append {blank : Bool} {more name behind : Text} (part : Text) {read : Text}
    (nonempty : read ≠ [])
    (h : ∀ s t, localName blank s = (name, t) → localName blank (part ++ s) = (read ++ name, t))
    (tail : NamesLocally blank more name behind) :
    NamesLocally blank (part ++ more) (read ++ name) behind := by
  obtain ⟨word, rfl, _, alike⟩ := tail
  refine ⟨part ++ word, (List.append_assoc _ _ _).symm,
    fun empty => absurd (List.append_eq_nil_iff.mp empty).1 nonempty, fun t follows => ?_⟩
  rw [List.append_assoc]
  exact h _ _ (alike t follows)

/-- A local name is read alike. -/
theorem localName_locally {blank : Bool} {s name behind : Text}
    (h : localName blank s = (name, behind)) : NamesLocally blank s name behind := by
  fun_induction localName blank s generalizing name behind with
  | case1 =>
      obtain ⟨rfl, rfl⟩ := Prod.mk.inj h
      refine ⟨[], rfl, fun _ => rfl, fun t follows => ?_⟩
      obtain respaced | detached := follows
      · rw [respaced.eq_nil]
        rfl
      · exact localName_detached detached
  | case2 b escape escaped more tail behind found ih =>
      obtain ⟨rfl, rfl⟩ := Prod.mk.inj h
      refine .append [b, escaped] (List.cons_ne_nil escaped []) (fun s t same => ?_) (ih found)
      rw [List.cons_append, List.cons_append, localName.eq_def]
      simp [escape, same]
  | case3 b escape =>
      obtain ⟨rfl, rfl⟩ := Prod.mk.inj h
      have isBackslash : b = Byte.backslash := beq_iff_eq.mp (Bool.and_eq_true_iff.mp escape).1
      refine .stop fun t continues => ?_
      rw [continues.backslash isBackslash rfl, localName.eq_def]
      simp [escape]
  | case4 b plain percent high low more hex tail behind found ih =>
      obtain ⟨rfl, rfl⟩ := Prod.mk.inj h
      refine .append [b, high, low] (List.cons_ne_nil b [high, low]) (fun s t same => ?_)
        (ih found)
      rw [List.cons_append, List.cons_append, List.cons_append, localName.eq_def]
      simp [plain, percent, hex, same]
  | case5 b plain percent high low more noHex =>
      obtain ⟨rfl, rfl⟩ := Prod.mk.inj h
      have noPair : NoHexPair (high :: low :: more) := by
        intro high' low' rest same
        obtain ⟨rfl, tail⟩ := List.cons.inj same
        obtain ⟨rfl, rfl⟩ := List.cons.inj tail
        exact Bool.eq_false_iff.mpr noHex
      exact .stop fun t continues =>
        localName_percent plain percent (noHexPair_broken noPair continues.broken)
  | case6 b rest plain percent short =>
      obtain ⟨rfl, rfl⟩ := Prod.mk.inj h
      have noPair : NoHexPair rest := fun high low more same => (short high low more same).elim
      exact .stop fun t continues =>
        localName_percent plain percent (noHexPair_broken noPair continues.broken)
  | case7 b more plain noPercent continues tail behind found ih =>
      obtain ⟨rfl, rfl⟩ := Prod.mk.inj h
      refine .append [b] (List.cons_ne_nil b []) (fun s t same => ?_) (ih found)
      rw [List.singleton_append, localName.eq_def]
      simp [plain, noPercent, continues, same]
  | case8 b more plain noPercent stop dot behind found ih =>
      obtain ⟨rfl, rfl⟩ := Prod.mk.inj h
      obtain ⟨word, same, noDot, alike⟩ := ih found
      obtain rfl := noDot rfl
      obtain rfl : more = behind := same
      refine .stop fun t continues => ?_
      have stopped : localName blank t = ([], t) := alike t (continues.dot (beq_iff_eq.mp dot))
      rw [localName.eq_def]
      simp only [plain, noPercent, stop, dot, stopped, Bool.false_eq_true, if_false, if_true]
  | case9 b more plain noPercent stop dot tail behind nonempty found ih =>
      obtain ⟨rfl, rfl⟩ := Prod.mk.inj h
      refine .append [b] (List.cons_ne_nil b []) (fun s t same => ?_) (ih found)
      rw [List.singleton_append, localName.eq_def]
      simp only [plain, noPercent, stop, dot, same, Bool.false_eq_true, if_false, if_true]
      rfl
  | case10 b more plain noPercent stop noDot =>
      obtain ⟨rfl, rfl⟩ := Prod.mk.inj h
      refine .stop fun t _ => ?_
      rw [localName.eq_def]
      simp only [plain, noPercent, stop, noDot, Bool.false_eq_true, if_false]

theorem readPrefixedName_locally {label s behind : Text} {l : Lexeme}
    (h : readPrefixedName label s = .ok (l, behind)) :
    ReadsLocally StandsIn (readPrefixedName label) (fun t => .ok (l, t)) s behind := by
  simp only [readPrefixedName] at h
  split at h
  · next isBlank =>
    split at h
    · cases h
    · next name after nonempty found =>
      obtain ⟨rfl, rfl⟩ := Prod.mk.inj (Except.ok.inj h)
      obtain ⟨word, rfl, _, alike⟩ := localName_locally found
      refine ⟨word, rfl, fun t follows => ?_⟩
      simp only [readPrefixedName, isBlank, if_true, alike t follows]
  · next other =>
    cases found : localName false s with
    | mk name after =>
        rw [found] at h
        obtain ⟨rfl, rfl⟩ := Prod.mk.inj (Except.ok.inj h)
        obtain ⟨word, same, _, alike⟩ := localName_locally found
        refine ⟨word, same, fun t follows => ?_⟩
        simp only [readPrefixedName, other, alike t follows, Bool.false_eq_true, if_false]

/-- Whether a word is a label: a colon follows it, and it does not end with a dot. -/
def isLabel (s : Text) : Bool :=
  (s.dropWhile isLabelByte).head? == some Byte.colon &&
    (s.takeWhile isLabelByte).getLast? != some Byte.dot

theorem readWord_eq (s : Text) : readWord s =
    if isLabel s then readPrefixedName (s.takeWhile isLabelByte) (s.dropWhile isLabelByte).tail
    else .ok (ofWord (s.takeWhile Byte.isNameByte), s.dropWhile Byte.isNameByte) := rfl

theorem isLabel_broken {s t : Text} (h : isLabel s = false) (follows : Broken s t) :
    isLabel t = false := by
  obtain ⟨label, behind⟩ | detached := follows.run (p := isLabelByte) (by decide)
  · rw [isLabel, label, Bool.and_eq_false_iff]
    rw [isLabel, Bool.and_eq_false_iff] at h
    refine h.imp_left fun noColon => ?_
    have stop : StopsAt (· == Byte.colon) (s.dropWhile isLabelByte) := fun b first => by
      rw [first] at noColon
      simpa using noColon
    have stop' := behind.stopsAt stop (by decide)
    cases first : (t.dropWhile isLabelByte).head? with
    | none => rfl
    | some b => simpa using stop' b first
  · have stop : StopsAt (· == Byte.colon) (t.dropWhile isLabelByte) :=
      detached.stopsAt (by decide)
    rw [isLabel, Bool.and_eq_false_iff]
    refine .inl ?_
    cases first : (t.dropWhile isLabelByte).head? with
    | none => rfl
    | some b => simpa using stop b first

theorem readWord_locally {s behind : Text} {l : Lexeme} (h : readWord s = .ok (l, behind)) :
    ReadsLocally StandsIn readWord (fun t => .ok (l, t)) s behind := by
  rw [readWord_eq] at h
  cases named : isLabel s with
  | true =>
      simp only [named, if_true] at h
      obtain ⟨word, same, alike⟩ := readPrefixedName_locally h
      have colon : (s.dropWhile isLabelByte) = Byte.colon :: (s.dropWhile isLabelByte).tail := by
        have first := (Bool.and_eq_true_iff.mp named).1
        cases drop : s.dropWhile isLabelByte with
        | nil => simp [drop] at first
        | cons b rest =>
            rw [drop] at first
            rw [show b = Byte.colon by simpa using first, List.tail_cons]
      refine ⟨s.takeWhile isLabelByte ++ Byte.colon :: word, ?_, fun t follows => ?_⟩
      · rw [List.append_assoc, List.cons_append, ← same, ← colon, List.takeWhile_append_dropWhile]
      · have stop : StopsAt isLabelByte (Byte.colon :: (word ++ t)) := stopsAt_cons (by decide)
        have all : ∀ b ∈ s.takeWhile isLabelByte, isLabelByte b = true :=
          List.all_eq_true.mp List.all_takeWhile
        have named' : isLabel (s.takeWhile isLabelByte ++ Byte.colon :: (word ++ t)) = true := by
          have last := (Bool.and_eq_true_iff.mp named).2
          simp [isLabel, takeWhile_run all stop, dropWhile_run all stop, last]
        rw [List.append_assoc, List.cons_append, readWord_eq, named', if_pos rfl,
          takeWhile_run all stop, dropWhile_run all stop, List.tail_cons, alike t follows]
  | false =>
      simp only [named, Bool.false_eq_true, if_false] at h
      obtain ⟨rfl, rfl⟩ := Prod.mk.inj (Except.ok.inj h)
      refine ⟨s.takeWhile Byte.isNameByte, (List.takeWhile_append_dropWhile).symm,
        fun t follows => ?_⟩
      have whole := follows.broken.append (s.takeWhile Byte.isNameByte)
      rw [List.takeWhile_append_dropWhile] at whole
      rw [readWord_eq, isLabel_broken named whole, takeWhile_broken (by decide) follows.broken,
        dropWhile_broken (by decide) follows.broken]
      rfl

theorem fraction?_locally {s run behind : Text} (h : fraction? s = some (run, behind)) :
    ReadsLocally Broken fraction? (fun t => some (run, t)) s behind := by
  cases s with
  | nil => cases h
  | cons point digits =>
      simp only [fraction?] at h
      split at h
      · next both =>
        obtain ⟨rfl, rfl⟩ := Prod.mk.inj (Option.some.inj h)
        refine ⟨point :: digits.takeWhile Byte.isDigit, ?_, fun t follows => ?_⟩
        · rw [List.cons_append, List.takeWhile_append_dropWhile]
        · rw [List.cons_append, fraction?, takeWhile_broken (by decide) follows,
            dropWhile_broken (by decide) follows]
          simp only [both, if_true]
      · cases h

theorem fraction?_broken {s t : Text} (h : fraction? s = none) (follows : Broken s t) :
    fraction? t = none := by
  cases follows with
  | refl => exact h
  | nil => rfl
  | @space b _ t isWhite =>
      have other : (b == Byte.dot) = false :=
        Byte.of_isSpace (P := fun b => (b == Byte.dot) = false) isWhite (by decide)
      simp [fraction?, other]
  | @cons point s t tail =>
      simp only [fraction?] at h ⊢
      split at h
      · cases h
      · next neither =>
        cases dot : point == Byte.dot with
        | false => rfl
        | true =>
            have noDigits : s.takeWhile Byte.isDigit = [] := by simpa [dot] using neither
            simp [tail.takeWhile_eq_nil (by decide) noDigits]

theorem exponentSign_self (s : Text) : (exponentSign s).1 ++ (exponentSign s).2 = s := by
  unfold exponentSign
  split
  · exact List.take_append_drop 1 s
  · rfl

theorem exponent?_locally {s run behind : Text} (h : exponent? s = some (run, behind)) :
    ReadsLocally Broken exponent? (fun t => some (run, t)) s behind := by
  cases s with
  | nil => cases h
  | cons e rest =>
      simp only [exponent?] at h
      split at h
      · next letter =>
        split at h
        · cases h
        · next nonempty =>
          obtain ⟨rfl, rfl⟩ := Prod.mk.inj (Option.some.inj h)
          have digits : IsDigits ((exponentSign rest).2.takeWhile Byte.isDigit) :=
            ⟨by simpa using nonempty, List.all_eq_true.mp List.all_takeWhile⟩
          refine ⟨_, ?_, fun t follows => exponent?_append (by simpa using letter)
            (isSign_exponentSign rest) digits
            (follows.stopsAt (stopsAt_dropWhile _ _) (by decide))⟩
          rw [List.append_assoc, List.takeWhile_append_dropWhile, List.cons_append,
            exponentSign_self]
      · cases h

/-- The sign of an exponent and the run of digits behind it. -/
theorem exponentRun_broken {s t : Text} (follows : Broken s t)
    (noDigits : (exponentSign s).2.takeWhile Byte.isDigit = []) :
    (exponentSign t).2.takeWhile Byte.isDigit = [] := by
  have plain : ∀ {c : Byte} {rest : Text}, (c = Byte.plus ∨ c = Byte.hyphen) = False →
      exponentSign (c :: rest) = ([], c :: rest) := by
    intro c rest other
    simp only [eq_iff_iff, iff_false, not_or] at other
    simp [exponentSign, other.1, other.2]
  cases follows with
  | refl => exact noDigits
  | nil => rfl
  | @space c _ t isWhite =>
      have other : (c = Byte.plus ∨ c = Byte.hyphen) = False ∧ c.isDigit = false :=
        Byte.of_isSpace (P := fun c => (c = Byte.plus ∨ c = Byte.hyphen) = False ∧
          c.isDigit = false) isWhite (by decide)
      simp [plain other.1, other.2]
  | @cons c s t tail =>
      by_cases sign : c = Byte.plus ∨ c = Byte.hyphen
      · have signed : ∀ rest : Text, (exponentSign (c :: rest)).2 = rest := by
          intro rest
          rcases sign with rfl | rfl <;> rfl
        rw [signed] at noDigits ⊢
        exact tail.takeWhile_eq_nil (by decide) noDigits
      · rw [plain (eq_false sign)] at noDigits ⊢
        exact tail.cons.takeWhile_eq_nil (by decide) noDigits

theorem exponent?_broken {s t : Text} (h : exponent? s = none) (follows : Broken s t) :
    exponent? t = none := by
  cases follows with
  | refl => exact h
  | nil => rfl
  | @space b _ t isWhite =>
      have other : (b == 0x65 || b == 0x45) = false :=
        Byte.of_isSpace (P := fun b => (b == 0x65 || b == 0x45) = false) isWhite (by decide)
      simp [exponent?, other]
  | @cons e s t tail =>
      simp only [exponent?] at h ⊢
      split at h
      · next letter =>
        split at h
        · next empty =>
          have noDigits := exponentRun_broken tail (List.isEmpty_iff.mp empty)
          simp [letter, noDigits]
        · cases h
      · next other => rw [if_neg other]

/-- What an optional part of a number takes, and the text behind it. -/
def takes (part? : Text → Option (Text × Text)) (s : Text) : Option Text × Text :=
  match part? s with
  | some (part, behind) => (some part, behind)
  | none => (none, s)

theorem takes_locally {part? : Text → Option (Text × Text)}
    (locally : ∀ {s part behind}, part? s = some (part, behind) →
      ReadsLocally Broken part? (fun t => some (part, t)) s behind)
    (follows : ∀ {s t}, part? s = none → Broken s t → part? t = none) (s : Text) :
    ReadsLocally Broken (takes part?) (fun t => ((takes part? s).1, t)) s (takes part? s).2 := by
  cases found : part? s with
  | some pair =>
      obtain ⟨word, same, alike⟩ := locally found
      have here : takes part? s = (some pair.1, pair.2) := by rw [takes, found]
      rw [here]
      exact ⟨word, same, fun t h => by rw [takes, alike t h]⟩
  | none =>
      have here : takes part? s = (none, s) := by rw [takes, found]
      rw [here]
      exact ⟨[], rfl, fun t h => by rw [List.nil_append, takes, follows found h]⟩

/-- A number of its digits before the point, its fraction and its exponent. -/
def numberOf (digits : Text) (fraction exponent : Option Text) : Lexeme :=
  match exponent with
  | some exponent => .number .double (digits ++ fraction.getD [] ++ exponent)
  | none => .number (if fraction.isSome then .decimal else .integer) (digits ++ fraction.getD [])

theorem readNumber_eq (s : Text) : readNumber s =
    let fraction := takes fraction? (s.dropWhile Byte.isDigit)
    let exponent := takes exponent? fraction.2
    (numberOf (s.takeWhile Byte.isDigit) fraction.1 exponent.1, exponent.2) := by
  unfold readNumber takes
  cases part : fraction? (s.dropWhile Byte.isDigit) with
  | some pair => cases found : exponent? pair.2 <;> simp [part, found, numberOf]
  | none => cases found : exponent? (s.dropWhile Byte.isDigit) <;> simp [part, found, numberOf]

theorem readNumber_locally (s : Text) :
    ReadsLocally Broken readNumber (fun t => ((readNumber s).1, t)) s (readNumber s).2 := by
  let fraction := takes fraction? (s.dropWhile Byte.isDigit)
  obtain ⟨word, same, alike⟩ := takes_locally fraction?_locally fraction?_broken
    (s.dropWhile Byte.isDigit)
  obtain ⟨word', same', alike'⟩ := takes_locally exponent?_locally exponent?_broken fraction.2
  rw [readNumber_eq]
  refine ⟨s.takeWhile Byte.isDigit ++ (word ++ word'), ?_, fun t follows => ?_⟩
  · rw [List.append_assoc, List.append_assoc, ← same', ← same, List.takeWhile_append_dropWhile]
  · have behind := follows.append word'
    rw [← same'] at behind
    have ahead := behind.append word
    rw [← same] at ahead
    rw [readNumber_eq, List.append_assoc, List.append_assoc,
      takeWhile_broken (by decide) ahead, dropWhile_broken (by decide) ahead]
    simp only [alike _ behind]
    rw [alike' t follows]

theorem markOf_locally (second : Byte) (solid : second.isSpace = false) (both single : Symbol)
    (s : Text) : ReadsLocally Broken (markOf second both single)
      (fun t => ((markOf second both single s).1, t)) s (markOf second both single s).2 := by
  by_cases first : s.head? = some second
  · obtain ⟨rest, rfl⟩ : ∃ rest, s = second :: rest := by
      cases s with
      | nil => cases first
      | cons c rest => exact ⟨rest, by rw [Option.some.inj first]⟩
    have here : ∀ t, markOf second both single (second :: t) = (.symbol both, t) := by
      simp [markOf]
    rw [here]
    exact ⟨[second], rfl, fun t _ => here t⟩
  · have here : ∀ {t : Text}, t.head? ≠ some second →
        markOf second both single t = (.symbol single, t) := by
      intro t other
      rw [markOf, if_neg other]
    rw [here first]
    refine ⟨[], rfl, fun t follows => here fun same => ?_⟩
    have stop : StopsAt (· == second) s := fun c head => by
      rw [beq_eq_false_iff_ne]
      exact fun same => first (same ▸ head)
    have stop' := follows.stopsAt stop (Byte.whites_ne solid)
    exact absurd (stop' second same) (by simp)

theorem readLess_locally (s : Text) :
    ReadsLocally Broken readLess (fun t => ((readLess s).1, t)) s (readLess s).2 := by
  cases found : iriReference? s with
  | some pair =>
      obtain ⟨word, same, alike⟩ := iriReference?_locally found
      have here : readLess s = (.iri pair.1, pair.2) := by rw [readLess, found]
      rw [here]
      exact ⟨word, same, fun t follows => by rw [readLess, alike t follows]⟩
  | none =>
      obtain ⟨word, same, alike⟩ := markOf_locally Byte.equals (by decide) .lessEqual .less s
      have here : readLess s = markOf Byte.equals .lessEqual .less s := by rw [readLess, found]
      rw [here]
      refine ⟨word, same, fun t follows => ?_⟩
      have whole := follows.append word
      rw [← same] at whole
      rw [readLess, iriReference?_broken found whole]
      exact alike t follows

/-- A reader that takes a first byte at least takes the rest of its word behind it. -/
theorem locally_behind {ρ : Type} {related : Text → Text → Prop} {read result : Text → ρ}
    {b : Byte} {s behind : Text} (h : ReadsLocally related read result (b :: s) behind)
    (shorter : behind.length ≤ s.length) :
    ReadsLocally related (fun t => read (b :: t)) result s behind := by
  obtain ⟨word, same, alike⟩ := h
  cases word with
  | nil =>
      have whole := congrArg List.length same
      simp only [List.length_cons, List.nil_append] at whole
      omega
  | cons c word =>
      obtain ⟨rfl, tail⟩ := List.cons.inj same
      exact ⟨word, tail, alike⟩

theorem Asks.locally {b : Byte} {read : Text → Except Fault (Lexeme × Text)} (h : Asks b read)
    {s behind : Text} {l : Lexeme} (found : read s = .ok (l, behind)) :
    ReadsLocally StandsIn read (fun t => .ok (l, t)) s behind := by
  cases h with
  | @pair second both single _ _ solid _ =>
      have locally := markOf_locally second solid both single s
      rw [Except.ok.inj found] at locally
      exact locally.follows.ok
  | mark known =>
      obtain ⟨rfl, rfl⟩ := Prod.mk.inj (Except.ok.inj found)
      exact ⟨[], rfl, fun _ _ => rfl⟩
  | less =>
      have locally := readLess_locally s
      rw [Except.ok.inj found] at locally
      exact locally.follows.ok
  | question =>
      cases named : readVariable? s with
      | some pair =>
          simp only [named, Option.getD_some] at found
          obtain rfl := Except.ok.inj found
          obtain ⟨word, same, alike⟩ := readVariable?_locally named
          exact ⟨word, same, fun t follows => by simp [alike t follows.broken]⟩
      | none =>
          simp only [named, Option.getD_none] at found
          obtain ⟨rfl, rfl⟩ := Prod.mk.inj (Except.ok.inj found)
          exact ⟨[], rfl, fun t follows => by simp [readVariable?_broken named follows.broken]⟩
  | dollar =>
      cases named : readVariable? s with
      | some pair =>
          simp only [named, Option.map_some, Option.getD_some] at found
          obtain rfl := Except.ok.inj found
          obtain ⟨word, same, alike⟩ := readVariable?_locally named
          exact ⟨word, same, fun t follows => by simp [alike t follows.broken]⟩
      | none =>
          simp only [named, Option.map_none, Option.getD_none] at found
          cases found
  | ampersand =>
      dsimp only at found
      split at found
      · next first =>
        obtain ⟨rfl, rfl⟩ := Prod.mk.inj (Except.ok.inj found)
        obtain ⟨rest, rfl⟩ := List.head?_eq_some_iff.mp first
        exact ⟨[b], rfl, fun t _ => by simp⟩
      · cases found
  | languageTag => exact (readLanguageTag_locally found).follows
  | string quoted =>
      have solid : b.isSpace = false := by rcases quoted with rfl | rfl <;> rfl
      exact (readString_locally solid found).follows
  | unlabelled => exact readPrefixedName_locally found
  | number digit =>
      have locally := locally_behind (readNumber_locally (b :: s)) (length_of_readNumber digit)
      rw [Except.ok.inj found] at locally
      exact locally.follows.ok
  | word start => exact locally_behind (readWord_locally found) (length_of_readWord start found)
  | unexpected => cases found

/-- A lexeme is read alike in front of every text that may follow it in the place of the one
behind. -/
theorem read_locally {s behind : Text} {l : Lexeme} (h : read s = .ok (l, behind))
    (full : l.isTerminal = false) : ReadsLocally StandsIn read (fun t => .ok (l, t)) s behind := by
  cases s with
  | nil =>
      obtain ⟨rfl, rfl⟩ := Prod.mk.inj (Except.ok.inj h)
      cases full
  | cons b rest =>
      obtain ⟨word, rfl, alike⟩ := (asks_readFrom b).locally h
      exact ⟨b :: word, rfl, alike⟩

end Lexeme

end SparqlMetrics
