/-
Which texts are read as an unsigned number, and as which.

The texts are given by a grammar that says nothing of how they are read: digits from a table, written most significant
first (`Digits`), with an optional plus sign (`SignedDigits`), decimal or hexadecimal (`NumberText`), and at most one
suffix letter behind (`Amount`). The reader takes them apart from both ends. The suffix is off before the prefix is
looked for, and no letter is both a suffix and a digit, so each text can be taken apart in one way only.

- `scaled?_eq_some_iff`: the reader reads exactly the texts of the grammar, as the numbers they denote;
- `unsigned_exact`: so does an argument, and any other value is refused with the argument itself.
-/
import NestedGuest.Proofs.Args.Quoting

namespace NestedGuest

namespace Text

theorem head?_dropWhile_isBlank (cs : List Char) : ∀ c ∈ (cs.dropWhile isBlank).head?, isBlank c = false := by
  intro c hc
  have h := List.head?_dropWhile_not isBlank cs
  rw [hc] at h
  simpa using h

/-- what is trimmed has no white space at its ends -/
theorem trimmed_trim (cs : List Char) : Trimmed (trim cs) := by
  obtain ⟨front, hfront⟩ := List.dropWhile_suffix isBlank (l := (cs.dropWhile isBlank).reverse)
  constructor
  · intro c hc
    refine head?_dropWhile_isBlank cs c ?_
    rw [← List.reverse_reverse (cs.dropWhile isBlank), ← hfront, List.reverse_append, List.head?_append]
    rw [trim] at hc
    rw [hc]
    rfl
  · rw [trim, List.getLast?_reverse]
    exact head?_dropWhile_isBlank _

end Text

namespace Args

/-! ## Grammar -/

/-- the characters that are digits, with their values -/
def digitTable : List (Char × ℕ) :=
  ['0', '1', '2', '3', '4', '5', '6', '7', '8', '9', 'a', 'b', 'c', 'd', 'e', 'f'].zipIdx ++
    ['A', 'B', 'C', 'D', 'E', 'F'].zipIdx 10

/-- the letters that may stand behind a number, with the powers of two they stand for -/
def suffixTable : List (Char × ℕ) := [('K', 10), ('k', 10), ('M', 20), ('m', 20), ('G', 30), ('g', 30)]

/-- `c` is a digit of value `v` -/
def Digit (radix : ℕ) (c : Char) (v : ℕ) : Prop := (c, v) ∈ digitTable ∧ v < radix

/-- one or more digits, and the number that they write -/
inductive Digits (radix : ℕ) : List Char → ℕ → Prop
  | single {c : Char} {v : ℕ} (hc : Digit radix c v) : Digits radix [c] v
  | snoc {cs : List Char} {n : ℕ} {c : Char} {v : ℕ} (hcs : Digits radix cs n) (hc : Digit radix c v) :
      Digits radix (cs ++ [c]) (n * radix + v)

/-- digits after an optional plus sign -/
inductive SignedDigits (radix : ℕ) : List Char → ℕ → Prop
  | bare {cs : List Char} {n : ℕ} (h : Digits radix cs n) : SignedDigits radix cs n
  | plus {cs : List Char} {n : ℕ} (h : Digits radix cs n) : SignedDigits radix ('+' :: cs) n

/-- the text of a number: decimal, or hexadecimal after `0x` -/
inductive NumberText : List Char → ℕ → Prop
  | decimal {cs : List Char} {n : ℕ} (h : SignedDigits 10 cs n) : NumberText cs n
  | hexadecimal {cs : List Char} {n : ℕ} (h : SignedDigits 16 cs n) : NumberText ('0' :: 'x' :: cs) n

/-- at most one suffix letter, and the power of two it stands for -/
inductive Suffix : List Char → ℕ → Prop
  | none : Suffix [] 0
  | letter {c : Char} {shift : ℕ} (hc : (c, shift) ∈ suffixTable) : Suffix [c] shift

/-- `cs` is a number and at most one suffix, which denote `n`; both the number and the product are words -/
def Amount (cs : List Char) (n : ℕ) : Prop :=
  ∃ number suffix m shift, cs = number ++ suffix ∧ NumberText number m ∧ Suffix suffix shift ∧
    m < wordEnd ∧ m * 2 ^ shift < wordEnd ∧ n = m * 2 ^ shift

variable {radix n m v shift : ℕ} {c : Char} {cs : List Char}

/-! ## Digits -/

theorem of_ascii {P : Char → Prop} (h : ∀ n < 128, P (Char.ofNat n)) (hc : c.toNat < 128) : P c := by
  rw [← Char.ofNat_toNat c]
  exact h c.toNat hc

/-- no character past ASCII is a digit -/
theorem digitValue?_eq_none (hc : 128 ≤ c.toNat) : digitValue? radix c = none := by
  have habove : ∀ d : Char, d.toNat < 128 → ¬ c ≤ d := by
    intro d hd hle
    have hnat : c.toNat ≤ d.toNat := UInt32.le_iff_toNat_le.1 hle
    omega
  have h9 := habove '9' (by decide)
  have hz := habove 'z' (by decide)
  have hZ := habove 'Z' (by decide)
  simp only [digitValue?, h9, hz, hZ, and_false, if_false, lt_irrefl]

/-- the digits of the largest radix are those of the table -/
theorem digitValue?_sixteen : digitValue? 16 c = some v ↔ (c, v) ∈ digitTable := by
  have hlookup : (digitValue? 16 c).toList = (digitTable.filter fun x => x.1 = c).map Prod.snd := by
    by_cases hc : c.toNat < 128
    · exact of_ascii (P := fun c => (digitValue? 16 c).toList = (digitTable.filter fun x => x.1 = c).map Prod.snd)
        (by decide +kernel) hc
    · have hsmall : ∀ x ∈ digitTable, x.1.toNat < 128 := by decide
      rw [digitValue?_eq_none (Nat.le_of_not_lt hc), List.filter_eq_nil_iff.2]
      · rfl
      · intro x hx heq
        exact hc (of_decide_eq_true heq ▸ hsmall x hx)
  rw [← Option.mem_toList, hlookup]
  simp

/-- those of a smaller radix are those of smaller value -/
theorem digitValue?_eq_some_iff (hradix : radix ≤ 16) : digitValue? radix c = some v ↔ Digit radix c v := by
  rw [Digit, ← digitValue?_sixteen]
  simp only [digitValue?]
  split_ifs <;> simp only [Option.some.injEq, false_and, false_iff, lt_irrefl, not_and] at * <;> omega

/-- reading on after a text is reading one more character after its number -/
theorem digitsFrom_append_singleton (radix n : ℕ) (cs : List Char) (c : Char) :
    digitsFrom radix n (cs ++ [c]) =
      (digitsFrom radix n cs).bind fun m => (digitValue? radix c).map fun v => m * radix + v := by
  induction cs generalizing n with
  | nil =>
    rw [List.nil_append, digitsFrom, digitsFrom, Option.bind_some]
    cases digitValue? radix c with
    | none => rfl
    | some v => rfl
  | cons d cs ih =>
    rw [List.cons_append, digitsFrom, digitsFrom]
    cases digitValue? radix d with
    | none => rfl
    | some v => exact ih _

theorem Digits.ne_nil (h : Digits radix cs n) : cs ≠ [] := by
  cases h with
  | single => exact List.cons_ne_nil _ _
  | snoc => exact List.append_ne_nil_of_right_ne_nil _ (List.cons_ne_nil _ _)

theorem Digits.mem_table (h : Digits radix cs n) : ∀ c ∈ cs, ∃ v, Digit radix c v := by
  induction h with
  | single hc =>
    intro d hd
    rw [List.mem_singleton.1 hd]
    exact ⟨_, hc⟩
  | snoc _ hc ih =>
    intro d hd
    rcases List.mem_append.1 hd with hd | hd
    · exact ih d hd
    · rw [List.mem_singleton.1 hd]
      exact ⟨_, hc⟩

theorem digits?_of_ne_nil (hcs : cs ≠ []) : digits? radix cs = digitsFrom radix 0 cs := if_neg hcs

/-- digits are read as the number they write -/
theorem Digits.read (hradix : radix ≤ 16) (h : Digits radix cs n) : digits? radix cs = some n := by
  have hne := h.ne_nil
  induction h with
  | single hc =>
    simp only [digits?_of_ne_nil hne, digitsFrom, (digitValue?_eq_some_iff hradix).2 hc, zero_mul, zero_add]
  | snoc hcs hc ih =>
    have hread := ih hcs.ne_nil
    rw [digits?_of_ne_nil hcs.ne_nil] at hread
    rw [digits?_of_ne_nil hne, digitsFrom_append_singleton, hread, (digitValue?_eq_some_iff hradix).2 hc]
    rfl

/-- what is read are digits; the text is taken from behind, where the grammar puts its digits -/
theorem digits_of_read (hradix : radix ≤ 16) (h : digits? radix cs = some n) : Digits radix cs n := by
  induction cs using List.reverseRecOn generalizing n with
  | nil => cases h
  | append_singleton cs c ih =>
    rw [digits?_of_ne_nil (List.append_ne_nil_of_right_ne_nil _ (List.cons_ne_nil _ _)),
      digitsFrom_append_singleton] at h
    obtain ⟨m, hm, hlast⟩ := Option.bind_eq_some_iff.1 h
    obtain ⟨v, hv, rfl⟩ := Option.map_eq_some_iff.1 hlast
    have hdigit := (digitValue?_eq_some_iff hradix).1 hv
    by_cases hcs : cs = []
    · subst hcs
      obtain rfl : 0 = m := Option.some.inj hm
      rw [zero_mul, zero_add]
      exact .single hdigit
    · rw [← digits?_of_ne_nil hcs] at hm
      exact .snoc (ih hm) hdigit

theorem digits?_eq_some_iff (hradix : radix ≤ 16) : digits? radix cs = some n ↔ Digits radix cs n :=
  ⟨digits_of_read hradix, Digits.read hradix⟩

/-! ## Numbers -/

/-- a character that is no digit does not occur among digits -/
theorem Digits.not_mem (h : Digits radix cs n) (hc : ∀ x ∈ digitTable, x.1 = c → radix ≤ x.2) : c ∉ cs := by
  intro hmem
  obtain ⟨v, hv, hlt⟩ := h.mem_table c hmem
  exact absurd (hc _ hv rfl) (Nat.not_le.2 hlt)

theorem unsigned?_eq_some_iff (hradix : radix ≤ 16) :
    unsigned? radix cs = some n ↔ SignedDigits radix cs n ∧ n < wordEnd := by
  have hplus : ∀ x ∈ digitTable, x.1 = '+' → radix ≤ x.2 := by simp [digitTable]
  unfold unsigned?
  split
  · rename_i rest
    rw [Option.filter_eq_some_iff, digits?_eq_some_iff hradix, decide_eq_true_iff]
    refine and_congr_left fun _ => ⟨.plus, fun h => ?_⟩
    cases h with
    | bare h => exact absurd List.mem_cons_self (h.not_mem hplus)
    | plus h => exact h
  · rename_i hsign
    rw [Option.filter_eq_some_iff, digits?_eq_some_iff hradix, decide_eq_true_iff]
    refine and_congr_left fun _ => ⟨.bare, fun h => ?_⟩
    cases h with
    | bare h => exact h
    | plus h => exact absurd rfl (hsign _)

theorem magnitude?_eq_some_iff : magnitude? cs = some n ↔ NumberText cs n ∧ n < wordEnd := by
  have hx : ∀ x ∈ digitTable, x.1 = 'x' → 10 ≤ x.2 := by simp [digitTable]
  unfold magnitude?
  split
  · rename_i hex
    rw [unsigned?_eq_some_iff le_rfl]
    refine and_congr_left fun _ => ⟨.hexadecimal, fun h => ?_⟩
    cases h with
    | decimal h =>
      -- the letter of the prefix is no decimal digit
      cases h with
      | bare h => exact absurd (by simp) (h.not_mem hx)
    | hexadecimal h => exact h
  · rename_i hother
    rw [unsigned?_eq_some_iff (by decide)]
    refine and_congr_left fun _ => ⟨.decimal, fun h => ?_⟩
    cases h with
    | decimal h => exact h
    | hexadecimal h => exact absurd rfl (hother _)

/-! ## Suffixes -/

theorem suffixShift?_eq_some_iff : suffixShift? c = some shift ↔ (c, shift) ∈ suffixTable := by
  simp only [suffixShift?, suffixTable, List.mem_cons, Prod.mk.injEq, List.not_mem_nil, or_false]
  grind

/-- no digit is a suffix -/
theorem suffixShift?_of_digit (h : Digit radix c v) : suffixShift? c = none := by
  have hall : ∀ x ∈ digitTable, suffixShift? x.1 = none := by decide
  exact hall _ h.1

theorem Digits.getLast? (h : Digits radix cs n) : ∃ c v, cs.getLast? = some c ∧ Digit radix c v := by
  cases h with
  | single hc => exact ⟨_, _, rfl, hc⟩
  | snoc _ hc => exact ⟨_, _, List.getLast?_concat, hc⟩

theorem SignedDigits.getLast? (h : SignedDigits radix cs n) : ∃ c v, cs.getLast? = some c ∧ Digit radix c v := by
  cases h with
  | bare h => exact h.getLast?
  | plus h =>
    obtain ⟨c, v, hlast, hdigit⟩ := h.getLast?
    exact ⟨c, v, by rw [List.getLast?_cons, hlast]; rfl, hdigit⟩

/-- a number ends with a digit, so the last letter behind it is all of the suffix -/
theorem NumberText.getLast? (h : NumberText cs n) : ∃ c radix v, cs.getLast? = some c ∧ Digit radix c v := by
  cases h with
  | decimal h =>
    obtain ⟨c, v, hlast, hdigit⟩ := h.getLast?
    exact ⟨c, 10, v, hlast, hdigit⟩
  | hexadecimal h =>
    obtain ⟨c, v, hlast, hdigit⟩ := h.getLast?
    exact ⟨c, 16, v, by rw [List.getLast?_cons, List.getLast?_cons, hlast]; rfl, hdigit⟩

theorem splitSuffix_append (h : NumberText cs n) {suffix : List Char} (hsuffix : Suffix suffix shift) :
    splitSuffix (cs ++ suffix) = (cs, shift) := by
  cases hsuffix with
  | none =>
    obtain ⟨c, radix, v, hlast, hdigit⟩ := h.getLast?
    rw [List.append_nil, splitSuffix, hlast, Option.bind_some, suffixShift?_of_digit hdigit]
  | letter hc =>
    rw [splitSuffix, List.getLast?_concat, Option.bind_some, suffixShift?_eq_some_iff.2 hc, List.dropLast_concat]

/-- what is split off is a suffix -/
theorem exists_suffix (cs : List Char) :
    ∃ suffix, cs = (splitSuffix cs).1 ++ suffix ∧ Suffix suffix (splitSuffix cs).2 := by
  unfold splitSuffix
  split
  · rename_i shift hshift
    obtain ⟨c, hc, hletter⟩ := Option.bind_eq_some_iff.1 hshift
    exact ⟨[c], (List.dropLast_append_getLast? c hc).symm, .letter (suffixShift?_eq_some_iff.1 hletter)⟩
  · exact ⟨[], (List.append_nil cs).symm, .none⟩

/-! ## Main results -/

/-- The reader of numbers reads the texts of the grammar, as what they denote. -/
theorem scaled?_eq_some_iff {w : UInt64} : scaled? cs = some w ↔ Amount cs w.toNat := by
  constructor
  · intro h
    obtain ⟨suffix, hcs, hsuffix⟩ := exists_suffix cs
    simp only [scaled?] at h
    split at h
    · cases h
    · rename_i m hnumber
      split_ifs at h with hproduct
      obtain rfl := Option.some.inj h
      obtain ⟨htext, hm⟩ := magnitude?_eq_some_iff.1 hnumber
      have hword : (UInt64.ofNat (m <<< (splitSuffix cs).2)).toNat = m <<< (splitSuffix cs).2 :=
        UInt64.toNat_ofNat_of_lt' hproduct
      rw [Nat.shiftLeft_eq] at hproduct
      exact ⟨_, suffix, m, _, hcs, htext, hsuffix, hm, hproduct, hword.trans (Nat.shiftLeft_eq m _)⟩
  · intro h
    obtain ⟨number, suffix, m, shift, rfl, hnumber, hsuffix, hm, hproduct, hw⟩ := h
    rw [← hw] at hproduct
    simp only [scaled?, splitSuffix_append hnumber hsuffix, magnitude?_eq_some_iff.2 ⟨hnumber, hm⟩, Nat.shiftLeft_eq,
      ← hw, if_pos hproduct, UInt64.ofNat_toNat]

/-- a text that is not read denotes nothing -/
theorem scaled?_eq_none_iff : scaled? cs = none ↔ ∀ n, ¬ Amount cs n := by
  constructor
  · intro h n hn
    have hword : (UInt64.ofNat n).toNat = n := by
      obtain ⟨-, -, m, shift, -, -, -, -, hproduct, rfl⟩ := hn
      exact UInt64.toNat_ofNat_of_lt' hproduct
    rw [← hword, ← scaled?_eq_some_iff, h] at hn
    cases hn
  · intro h
    rw [Option.eq_none_iff_forall_ne_some]
    intro w hw
    exact h _ (scaled?_eq_some_iff.1 hw)

/-- the value of an argument has no white space at its ends -/
theorem trimmed_of_findChars {args key value : List Char} (h : findChars args key = some value) :
    Text.Trimmed value := by
  obtain ⟨item, -, hitem⟩ := List.exists_of_findSome?_eq_some h
  split at hitem
  · rename_i k v hkey
    split_ifs at hitem
    obtain rfl := Option.some.inj hitem
    unfold keyValue? at hkey
    split at hkey
    · cases hkey
    · obtain rfl := (Prod.mk.inj (Option.some.inj hkey)).2
      exact Text.trimmed_trim _
  · cases hitem

/-- **Unsigned arguments are read exactly.** A key without a value gives the default. Otherwise the value, which has no
white space at its ends, gives a number exactly if it is a text of the grammar, and then the number that it denotes;
nothing wraps. Any other value is refused, and the error carries key and value. -/
theorem unsigned_exact (args key : String) (default : UInt64) :
    (find args key = none → unsigned args key default = .ok default) ∧
      ∀ value, find args key = some value → Text.Trimmed value.toList ∧
        (∀ n, unsigned args key default = .ok n ↔ Amount value.toList n.toNat) ∧
        ((∀ n, ¬ Amount value.toList n) →
          unsigned args key default = .error (.invalidSessionArgs (key ++ "=" ++ value))) := by
  refine ⟨fun hnone => by rw [unsigned, hnone], fun value hfind => ⟨?_, fun n => ?_, fun hnone => ?_⟩⟩
  · obtain ⟨cs, hcs, rfl⟩ := Option.map_eq_some_iff.1 hfind
    rw [String.toList_ofList]
    exact trimmed_of_findChars hcs
  · rw [← scaled?_eq_some_iff, unsigned, hfind]
    cases hread : scaled? value.toList with
    | none => simp [hread]
    | some w => simp [hread]
  · simp only [unsigned, hfind, scaled?_eq_none_iff.2 hnone, SessionError.ofArgument]

/-- a sign behind the prefix and a suffix are read; a quota of 2^64 bytes is refused, and not read as none -/
theorem unsigned_exact_quotas :
    find "ram_quota= 0x+fFk ,cap_quota=17179869184G" "ram_quota" = some "0x+fFk" ∧
      Amount "0x+fFk".toList 0x3fc00 ∧
      find "ram_quota= 0x+fFk ,cap_quota=17179869184G" "cap_quota" = some "17179869184G" ∧
      unsigned "ram_quota= 0x+fFk ,cap_quota=17179869184G" "cap_quota" 100 =
        .error (.invalidSessionArgs "cap_quota=17179869184G") ∧
      unsigned "ram_quota= 0x+fFk ,cap_quota=17179869184G" "priority" 100 = .ok 100 := by
  have hram : find "ram_quota= 0x+fFk ,cap_quota=17179869184G" "ram_quota" = some "0x+fFk" := by decide +kernel
  have hcaps : find "ram_quota= 0x+fFk ,cap_quota=17179869184G" "cap_quota" = some "17179869184G" := by
    decide +kernel
  have hread : unsigned "ram_quota= 0x+fFk ,cap_quota=17179869184G" "ram_quota" 100 = .ok 0x3fc00 := by
    decide +kernel
  have hnone : ∀ n, ¬ Amount "17179869184G".toList n := scaled?_eq_none_iff.1 (by decide +kernel)
  have hexact := fun key => unsigned_exact "ram_quota= 0x+fFk ,cap_quota=17179869184G" key 100
  exact ⟨hram, (((hexact "ram_quota").2 _ hram).2.1 _).1 hread, hcaps, ((hexact "cap_quota").2 _ hcaps).2.2 hnone,
    (hexact "priority").1 (by decide +kernel)⟩

end Args
end NestedGuest
