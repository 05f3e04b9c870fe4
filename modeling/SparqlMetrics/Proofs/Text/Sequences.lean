import SparqlMetrics.Proofs.Text.Utf8

/-!
# Byte sequences and characters

The check of a query file cuts a text into sequences: a lead byte with as many continuation bytes as
it announces. The bytes of a character are such a sequence, so every valid text passes. The converse
fails where the byte behind the lead decides: after four leads only some continuation bytes make a
character, and the check admits them all. The others are overlong forms, surrogates and numbers
beyond the last code point. A text is valid exactly when it passes and none of its sequences is one
of these. Main statement: `Text.isUtf8_iff_isValidUtf8`.
-/
namespace SparqlMetrics.Text

/-- A continuation byte, by its number. -/
def IsTail (b : Byte) : Prop := 0x80 ≤ b.toNat ∧ b.toNat < 0xC0

instance (b : Byte) : Decidable (IsTail b) := inferInstanceAs (Decidable (_ ∧ _))

/-- A lead byte and the continuation bytes that it announces. -/
inductive IsSequence : Text → Prop
  | one {a : Byte} : a.toNat < 0x80 → IsSequence [a]
  | two {a b : Byte} : 0xC2 ≤ a.toNat → a.toNat < 0xE0 → IsTail b → IsSequence [a, b]
  | three {a b c : Byte} : 0xE0 ≤ a.toNat → a.toNat < 0xF0 → IsTail b → IsTail c →
      IsSequence [a, b, c]
  | four {a b c d : Byte} : 0xF0 ≤ a.toNat → a.toNat < 0xF5 → IsTail b → IsTail c → IsTail d →
      IsSequence [a, b, c, d]

/-- The number whose bits a sequence holds: six in each continuation byte, others in its lead. -/
def number : Text → Nat
  | [a] => a.toNat
  | [a, b] => a.toNat % 32 * 64 + b.toNat % 64
  | [a, b, c] => (a.toNat % 16 * 64 + b.toNat % 64) * 64 + c.toNat % 64
  | [a, b, c, d] => ((a.toNat % 8 * 64 + b.toNat % 64) * 64 + c.toNat % 64) * 64 + d.toNat % 64
  | _ => 0

/-- A sequence whose number has a shorter one. -/
def IsOverlong (q : Text) : Prop :=
  q.length = 3 ∧ number q < 0x800 ∨ q.length = 4 ∧ number q < 0x10000

/-- A sequence of a surrogate. -/
def IsSurrogate (q : Text) : Prop := 0xD800 ≤ number q ∧ number q ≤ 0xDFFF

instance (q : Text) : Decidable (IsSurrogate q) := inferInstanceAs (Decidable (_ ∧ _))

/-- A sequence of a number beyond the last code point. -/
def IsBeyond (q : Text) : Prop := 0x10FFFF < number q

variable {p q s t : Text} {a b : Byte}

/-! ## The check, sequence by sequence -/

theorem isContinuation_iff : isContinuation b = true ↔ IsTail b :=
  Byte.forall_of_digits
    (P := fun b => isContinuation b = true ↔ 0x80 ≤ b.toNat ∧ b.toNat < 0xC0) (by decide) b

theorem announced?_eq (b : Byte) : announced? b =
    if b.toNat < 0x80 then some 0
    else if b.toNat < 0xC2 then none
    else if b.toNat < 0xE0 then some 1
    else if b.toNat < 0xF0 then some 2
    else if b.toNat < 0xF5 then some 3
    else none :=
  Byte.forall_of_digits
    (P := fun b => announced? b =
      if b.toNat < 0x80 then some 0
      else if b.toNat < 0xC2 then none
      else if b.toNat < 0xE0 then some 1
      else if b.toNat < 0xF0 then some 2
      else if b.toNat < 0xF5 then some 3
      else none) (by decide) b

theorem isValidUtf8_cons {owed : Nat} (h : announced? a = some owed) (s : Text) :
    isValidUtf8 (a :: s) = validAfter owed s := by
  rw [isValidUtf8, validAfter, h]

/-- Behind the continuation bytes that are owed the check begins again. -/
theorem validAfter_append {tail : Text} (h : ∀ b ∈ tail, IsTail b) (s : Text) :
    validAfter tail.length (tail ++ s) = isValidUtf8 s := by
  induction tail with
  | nil => rfl
  | cons b more ih =>
      obtain ⟨first, others⟩ := List.forall_mem_cons.mp h
      rw [List.length_cons, List.cons_append, validAfter, isContinuation_iff.mpr first,
        Bool.true_and]
      exact ih others

theorem IsSequence.exists_cons (h : IsSequence q) :
    ∃ lead tail, q = lead :: tail ∧ announced? lead = some tail.length ∧ ∀ b ∈ tail, IsTail b := by
  cases h with
  | @one a low =>
      refine ⟨a, [], rfl, ?_, by simp⟩
      rw [announced?_eq, if_pos low]
      rfl
  | @two a b low high hb =>
      refine ⟨a, [b], rfl, ?_, by simp [hb]⟩
      rw [announced?_eq, if_neg (by omega), if_neg (by omega), if_pos high]
      rfl
  | @three a b c low high hb hc =>
      refine ⟨a, [b, c], rfl, ?_, by simp [hb, hc]⟩
      rw [announced?_eq, if_neg (by omega), if_neg (by omega), if_neg (by omega), if_pos high]
      rfl
  | @four a b c d low high hb hc hd =>
      refine ⟨a, [b, c, d], rfl, ?_, by simp [hb, hc, hd]⟩
      rw [announced?_eq, if_neg (by omega), if_neg (by omega), if_neg (by omega),
        if_neg (by omega), if_pos high]
      rfl

/-- Behind a sequence the check begins again. -/
theorem IsSequence.isValidUtf8_append (h : IsSequence q) (s : Text) :
    isValidUtf8 (q ++ s) = isValidUtf8 s := by
  obtain ⟨lead, tail, rfl, announced, continues⟩ := h.exists_cons
  calc isValidUtf8 (lead :: tail ++ s) = validAfter tail.length (tail ++ s) :=
        isValidUtf8_cons announced _
    _ = isValidUtf8 s := validAfter_append continues s

/-- A text of which a continuation byte is owed opens with one. -/
theorem exists_tail {owed : Nat} (h : validAfter (owed + 1) s = true) :
    ∃ b rest, s = b :: rest ∧ IsTail b ∧ validAfter owed rest = true := by
  cases s with
  | nil => cases h
  | cons b rest =>
      rw [validAfter, Bool.and_eq_true] at h
      exact ⟨b, rest, rfl, isContinuation_iff.mp h.1, h.2⟩

/-- A text that passes the check opens with a sequence, and what stands behind it passes. -/
theorem exists_sequence (h : isValidUtf8 (a :: s) = true) :
    ∃ q t, a :: s = q ++ t ∧ IsSequence q ∧ isValidUtf8 t = true := by
  have announced := announced?_eq a
  split at announced
  · next low =>
    rw [isValidUtf8_cons announced] at h
    exact ⟨[a], s, rfl, .one low, h⟩
  split at announced
  · rw [isValidUtf8, validAfter, announced] at h
    cases h
  split at announced
  · next low high =>
    rw [isValidUtf8_cons announced] at h
    obtain ⟨b, t, rfl, hb, h⟩ := exists_tail h
    exact ⟨[a, b], t, rfl, .two (by omega) high hb, h⟩
  split at announced
  · next low high =>
    rw [isValidUtf8_cons announced] at h
    obtain ⟨b, t, rfl, hb, h⟩ := exists_tail h
    obtain ⟨c, t, rfl, hc, h⟩ := exists_tail h
    exact ⟨[a, b, c], t, rfl, .three (by omega) high hb hc, h⟩
  split at announced
  · next low high =>
    rw [isValidUtf8_cons announced] at h
    obtain ⟨b, t, rfl, hb, h⟩ := exists_tail h
    obtain ⟨c, t, rfl, hc, h⟩ := exists_tail h
    obtain ⟨d, t, rfl, hd, h⟩ := exists_tail h
    exact ⟨[a, b, c, d], t, rfl, .four (by omega) high hb hc hd, h⟩
  · rw [isValidUtf8, validAfter, announced] at h
    cases h

/-- A text passes if and only if it is made of sequences. -/
theorem isValidUtf8_iff :
    isValidUtf8 s = true ↔
      ∃ parts : List Text, (∀ q ∈ parts, IsSequence q) ∧ s = parts.flatten := by
  constructor
  · -- by the length of the text: what stands behind its first sequence is shorter
    induction length : s.length using Nat.strongRecOn generalizing s with
    | ind n ih =>
        intro passes
        cases s with
        | nil => exact ⟨[], by simp, rfl⟩
        | cons a rest =>
            obtain ⟨q, t, cut, first, behind⟩ := exists_sequence passes
            have shorter : t.length < n := by
              obtain ⟨lead, tail, rfl, _⟩ := first.exists_cons
              rw [← length, cut, List.length_append, List.length_cons]
              omega
            obtain ⟨parts, others, rfl⟩ := ih t.length shorter rfl behind
            exact ⟨q :: parts, List.forall_mem_cons.mpr ⟨first, others⟩, cut⟩
  · rintro ⟨parts, all, rfl⟩
    induction parts with
    | nil => rfl
    | cons q more ih =>
        obtain ⟨first, others⟩ := List.forall_mem_cons.mp all
        rw [List.flatten_cons, first.isValidUtf8_append]
        exact ih others

/-- The lead byte of a text says where its first sequence ends. -/
theorem IsSequence.eq_of_append (hp : IsSequence p) (hq : IsSequence q) (same : p ++ s = q ++ t) :
    p = q := by
  obtain ⟨lead, tail, rfl, announced, _⟩ := hp.exists_cons
  obtain ⟨lead', tail', rfl, announced', _⟩ := hq.exists_cons
  obtain ⟨rfl, rest⟩ := List.cons.inj same
  have length : tail.length = tail'.length := Option.some.inj (announced.symm.trans announced')
  rw [List.append_inj_left rest length]

/-! ## The sequences of characters -/

theorem toNat_ofNat {n : Nat} (h : n < 256) : (UInt8.ofNat n).toNat = n := by
  rw [UInt8.toNat_ofNat', Nat.mod_eq_of_lt h]

theorem isTail_ofNat (n : Nat) : IsTail (UInt8.ofNat (n % 64 + 128)) := by
  rw [IsTail, toNat_ofNat (by omega)]
  omega

/-- The bytes of a character are a sequence. -/
theorem isSequence_utf8EncodeChar (c : Char) : IsSequence (String.utf8EncodeChar c) := by
  have valid := c.valid
  unfold String.utf8EncodeChar
  simp only
  split
  · apply IsSequence.one
    rw [toNat_ofNat (by omega)]
    omega
  split
  · apply IsSequence.two _ _ (isTail_ofNat _)
    · rw [toNat_ofNat (by omega)]
      omega
    · rw [toNat_ofNat (by omega)]
      omega
  split
  · apply IsSequence.three _ _ (isTail_ofNat _) (isTail_ofNat _)
    · rw [toNat_ofNat (by omega)]
      omega
    · rw [toNat_ofNat (by omega)]
      omega
  · apply IsSequence.four _ _ (isTail_ofNat _) (isTail_ofNat _) (isTail_ofNat _)
    · rw [toNat_ofNat (by omega)]
      omega
    · rw [toNat_ofNat (by omega)]
      rcases valid with below | above <;> omega

/-- The sequence of a character holds its number. -/
theorem number_utf8EncodeChar (c : Char) :
    number (String.utf8EncodeChar c) = c.val.toNat := by
  have valid := c.valid
  unfold String.utf8EncodeChar
  simp only
  split
  · rw [number, toNat_ofNat (by omega)]
  split
  · rw [number, toNat_ofNat (by omega), toNat_ofNat (by omega)]
    omega
  split
  · rw [number, toNat_ofNat (by omega), toNat_ofNat (by omega), toNat_ofNat (by omega)]
    omega
  · rw [number, toNat_ofNat (by omega), toNat_ofNat (by omega), toNat_ofNat (by omega),
      toNat_ofNat (by omega)]
    rcases valid with below | above <;> omega

/-- A character has the shortest form. -/
theorem not_isOverlong_utf8EncodeChar (c : Char) : ¬ IsOverlong (String.utf8EncodeChar c) := by
  rw [IsOverlong, number_utf8EncodeChar, String.utf8EncodeChar]
  split
  · simp only [List.length_cons, List.length_nil]
    omega
  split
  · simp only [List.length_cons, List.length_nil]
    omega
  split
  · simp only [List.length_cons, List.length_nil]
    omega
  · simp only [List.length_cons, List.length_nil]
    omega

/-- A byte is made of its number. -/
theorem ofNat_eq {n : Nat} (h : n = b.toNat) : UInt8.ofNat n = b := by
  rw [h, UInt8.ofNat_toNat]

/-- The sequences that are the bytes of a character. -/
theorem IsSequence.exists_char_iff (h : IsSequence q) :
    (∃ c, String.utf8EncodeChar c = q) ↔ ¬ IsOverlong q ∧ ¬ IsSurrogate q ∧ ¬ IsBeyond q := by
  constructor
  · rintro ⟨c, rfl⟩
    have valid : c.val.toNat < 0xD800 ∨ 0xDFFF < c.val.toNat ∧ c.val.toNat < 0x110000 := c.valid
    refine ⟨not_isOverlong_utf8EncodeChar c, ?_, ?_⟩
    · rw [IsSurrogate, number_utf8EncodeChar]
      omega
    · rw [IsBeyond, number_utf8EncodeChar]
      omega
  · rintro ⟨short, noSurrogate, within⟩
    have scalar : (number q).isValidChar := by
      rw [IsSurrogate] at noSurrogate
      rw [IsBeyond] at within
      rw [Nat.isValidChar]
      omega
    have value : (Char.ofNatAux (number q) scalar).val.toNat = number q := rfl
    refine ⟨Char.ofNatAux (number q) scalar, ?_⟩
    rw [String.utf8EncodeChar, value]
    clear value scalar
    cases h with
    | @one a low =>
        rw [number, if_pos (by omega), UInt8.ofNat_toNat]
    | @two a b low high hb =>
        rw [IsTail] at hb
        rw [number, if_neg (by omega), if_pos (by omega), ofNat_eq (b := a) (by omega),
          ofNat_eq (b := b) (by omega)]
    | @three a b c low high hb hc =>
        have least : 0x800 ≤ number [a, b, c] := Nat.not_lt.mp fun less => short (.inl ⟨rfl, less⟩)
        rw [IsTail] at hb hc
        rw [number] at least ⊢
        rw [if_neg (by omega), if_neg (by omega), if_pos (by omega),
          ofNat_eq (b := a) (by omega), ofNat_eq (b := b) (by omega), ofNat_eq (b := c) (by omega)]
    | @four a b c d low high hb hc hd =>
        have least : 0x10000 ≤ number [a, b, c, d] :=
          Nat.not_lt.mp fun less => short (.inr ⟨rfl, less⟩)
        rw [IsBeyond] at within
        rw [IsTail] at hb hc hd
        rw [number] at least within ⊢
        rw [if_neg (by omega), if_neg (by omega), if_neg (by omega),
          ofNat_eq (b := a) (by omega), ofNat_eq (b := b) (by omega), ofNat_eq (b := c) (by omega),
          ofNat_eq (b := d) (by omega)]

/-! ## Valid texts among those that pass -/

theorem isValidUtf8_of_isUtf8 (h : s.IsUtf8) : isValidUtf8 s = true := by
  obtain ⟨chars, rfl⟩ := isUtf8_iff.mp h
  rw [isValidUtf8_iff]
  refine ⟨chars.map String.utf8EncodeChar, fun q member => ?_, ?_⟩
  · obtain ⟨c, _, rfl⟩ := List.mem_map.mp member
    exact isSequence_utf8EncodeChar c
  · rw [List.flatMap_def]

/-- A valid text that opens with a sequence opens with a character, and the rest is valid. -/
theorem IsSequence.of_isUtf8 (h : IsSequence q) (valid : IsUtf8 (q ++ t)) :
    (∃ c, String.utf8EncodeChar c = q) ∧ t.IsUtf8 := by
  obtain ⟨chars, same⟩ := isUtf8_iff.mp valid
  cases chars with
  | nil =>
      obtain ⟨lead, tail, rfl, _⟩ := h.exists_cons
      cases same
  | cons c more =>
      rw [List.flatMap_cons] at same
      obtain rfl := h.eq_of_append (isSequence_utf8EncodeChar c) same
      exact ⟨⟨c, rfl⟩, isUtf8_iff.mpr ⟨more, List.append_cancel_left same⟩⟩

/-- Behind sequences of a valid text the rest is valid. -/
theorem isUtf8_behind_sequences {parts : List Text} (all : ∀ q ∈ parts, IsSequence q)
    (valid : IsUtf8 (parts.flatten ++ t)) : t.IsUtf8 := by
  induction parts with
  | nil => exact valid
  | cons q more ih =>
      obtain ⟨first, others⟩ := List.forall_mem_cons.mp all
      rw [List.flatten_cons, List.append_assoc] at valid
      exact ih others (first.of_isUtf8 valid).2

theorem isUtf8_flatten {parts : List Text} (all : ∀ q ∈ parts, IsUtf8 q) :
    IsUtf8 parts.flatten := by
  induction parts with
  | nil => exact isUtf8_nil
  | cons q more ih =>
      obtain ⟨first, others⟩ := List.forall_mem_cons.mp all
      exact first.append (ih others)

/-- A text is valid if and only if it passes the check and none of its sequences is an overlong
form, a surrogate or a number beyond the last code point. -/
theorem isUtf8_iff_isValidUtf8 : s.IsUtf8 ↔ isValidUtf8 s = true ∧
    ∀ p q t, s = p ++ q ++ t → isValidUtf8 p = true → IsSequence q →
      ¬ IsOverlong q ∧ ¬ IsSurrogate q ∧ ¬ IsBeyond q := by
  constructor
  · intro valid
    refine ⟨isValidUtf8_of_isUtf8 valid, fun p q t cut passes isSequence => ?_⟩
    obtain ⟨parts, all, rfl⟩ := isValidUtf8_iff.mp passes
    rw [cut, List.append_assoc] at valid
    have behind := isUtf8_behind_sequences all valid
    exact isSequence.exists_char_iff.mp (isSequence.of_isUtf8 behind).1
  · rintro ⟨passes, formed⟩
    obtain ⟨parts, all, rfl⟩ := isValidUtf8_iff.mp passes
    apply isUtf8_flatten
    intro q member
    obtain ⟨front, behind, rfl⟩ := List.append_of_mem member
    have passed : isValidUtf8 front.flatten = true :=
      isValidUtf8_iff.mpr ⟨front, fun r h => all r (List.mem_append_left _ h), rfl⟩
    have cut : (front ++ q :: behind).flatten = front.flatten ++ q ++ behind.flatten := by
      rw [List.flatten_append, List.flatten_cons, List.append_assoc]
    have isSequence := all q member
    obtain ⟨c, rfl⟩ := isSequence.exists_char_iff.mpr (formed _ q _ cut passed isSequence)
    exact isUtf8_char c

/-- The three bytes of the first surrogate pass the check and are no valid text. -/
theorem isValidUtf8_surrogate :
    isValidUtf8 [0xED, 0xA0, 0x80] = true ∧ ¬ IsUtf8 [0xED, 0xA0, 0x80] := by
  constructor
  · decide
  · intro valid
    have isSequence : IsSequence [0xED, 0xA0, 0x80] :=
      .three (by decide) (by decide) (by decide) (by decide)
    have formed := (isUtf8_iff_isValidUtf8.mp valid).2 [] _ [] rfl rfl isSequence
    exact formed.2.1 (by decide)

end SparqlMetrics.Text
