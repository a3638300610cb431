/-
What is written into session arguments is what is read from them.

A client writes arguments as a list of items, each a key and a value that stands in quotes or bare (`Item.text`,
`render`). The splitter carries one bit through the whole text, whether it is inside quotes. `Passes` says that it gets
through a piece of text in a given state without splitting it, and in which state it comes out: a quoted value is passed
whatever commas it has, because the quotes turn the state round and the value does not.

- `string_render`: the text of a key is the value of the first item with that key;
- `read_decimal`, `read_signed_decimal`: numbers written in decimal are read as they are;
- `arguments_survive_quoting`: so the label of a session cannot add, change or hide another argument.
-/
import Mathlib.Data.List.Perm.Basic
import Mathlib.Tactic
import NestedGuest.Session.Config

namespace NestedGuest

/-! ## Blanks at the ends -/

/-- there is no white space at either end -/
structure Text.Trimmed (cs : List Char) : Prop where
  first : ∀ c ∈ cs.head?, Text.isBlank c = false
  last : ∀ c ∈ cs.getLast?, Text.isBlank c = false

namespace Text

variable {cs s t : List Char}

theorem dropWhile_isBlank (h : ∀ c ∈ cs.head?, isBlank c = false) : cs.dropWhile isBlank = cs := by
  cases cs with
  | nil => rfl
  | cons c cs => rw [List.dropWhile_cons_of_neg (Bool.eq_false_iff.1 (h c rfl))]

theorem trim_of_trimmed (h : Trimmed cs) : trim cs = cs := by
  have hlast : ∀ c ∈ cs.reverse.head?, isBlank c = false := by
    rw [List.head?_reverse]
    exact h.last
  rw [trim, dropWhile_isBlank h.first, dropWhile_isBlank hlast, List.reverse_reverse]

/-- only the outer ends count -/
theorem Trimmed.append (hs : Trimmed s) (ht : Trimmed t) (hne : s ≠ []) (hne' : t ≠ []) : Trimmed (s ++ t) where
  first := by
    rw [List.head?_append_of_ne_nil _ hne]
    exact hs.first
  last := by
    rw [List.getLast?_append_of_ne_nil _ hne']
    exact ht.last

end Text

namespace Args

/-! ## Splitting -/

/-- In the state `quoted` the splitter passes `s` without splitting it, and comes out in the state `after`. -/
def Passes (quoted : Bool) (s : List Char) (after : Bool) : Prop :=
  ∀ rest, splitItems quoted (s ++ rest) = (s ++ (splitItems after rest).headD []) :: (splitItems after rest).tail

variable {q q' q'' : Bool} {s t rest : List Char} {c : Char}

theorem headD_cons_tail (q : Bool) (rest : List Char) :
    (splitItems q rest).headD [] :: (splitItems q rest).tail = splitItems q rest := by
  cases rest with
  | nil => rfl
  | cons c cs =>
    simp only [splitItems]
    split_ifs <;> rfl

theorem Passes.append (hs : Passes q s q') (ht : Passes q' t q'') : Passes q (s ++ t) q'' := by
  intro rest
  rw [List.append_assoc, hs, ht, List.headD_cons, List.tail_cons, List.append_assoc]

/-- without quotes and with commas inside quotes only, text leaves the state as it is -/
theorem Passes.plain (h : ∀ c ∈ s, c ≠ '"' ∧ (q = false → c ≠ ',')) : Passes q s q := by
  induction s with
  | nil =>
    intro rest
    exact (headD_cons_tail q rest).symm
  | cons c s ih =>
    obtain ⟨⟨hquote, hcomma⟩, hs⟩ := List.forall_mem_cons.1 h
    intro rest
    have hsplit : ¬ (decide (c = ',') && !q) = true := by
      cases q with
      | false => simp [hcomma rfl]
      | true => simp
    rw [List.cons_append, splitItems, if_neg hquote, if_neg hsplit, ih hs]
    rfl

theorem Passes.quote (q : Bool) : Passes q ['"'] (!q) := by
  intro rest
  rw [List.singleton_append, splitItems, if_pos rfl, if_neg (by decide +revert)]
  rfl

/-- a quoted value is passed as a whole -/
theorem Passes.quoted (h : ∀ c ∈ s, c ≠ '"') : Passes false ('"' :: (s ++ ['"'])) false := by
  have hvalue : Passes true s true := .plain fun c hc => ⟨h c hc, fun hq => absurd hq (by decide)⟩
  exact (Passes.quote false).append (hvalue.append (Passes.quote true))

/-- a comma outside quotes ends the item -/
theorem Passes.comma (h : Passes false s false) (rest : List Char) :
    splitItems false (s ++ ',' :: rest) = s :: splitItems false rest := by
  have hcomma : splitItems false (',' :: rest) = [] :: splitItems false rest := by simp [splitItems]
  rw [h, hcomma, List.headD_cons, List.append_nil, List.tail_cons]

/-! ## Items -/

theorem items_of_blank (rest : List Char) : items (' ' :: rest) = items rest := by
  have hsplit : splitItems false (' ' :: rest) =
      (' ' :: (splitItems false rest).headD []) :: (splitItems false rest).tail :=
    Passes.plain (s := [' ']) (by simp) rest
  have htrim : ∀ cs, Text.trim (' ' :: cs) = Text.trim cs := fun cs => by
    rw [Text.trim, List.dropWhile_cons_of_pos (by decide), Text.trim]
  rw [items, hsplit, items, ← headD_cons_tail false rest, List.map_cons, List.map_cons, htrim]
  rfl

/-- what an item is made of is found in it again -/
theorem keyValue?_append (hkey : ∀ c ∈ s, c ≠ '=') (hs : Text.Trimmed s) (ht : Text.Trimmed t) :
    keyValue? (s ++ '=' :: t) = some (s, t) := by
  have hall : ∀ c ∈ s, decide (c ≠ '=') = true := fun c hc => decide_eq_true (hkey c hc)
  rw [keyValue?, List.dropWhile_append_of_pos hall, List.dropWhile_cons_of_neg (by decide),
    List.takeWhile_append_of_pos hall, List.takeWhile_cons_of_neg (by decide), List.append_nil]
  simp only [Text.trim_of_trimmed hs, Text.trim_of_trimmed ht]

theorem unquote_quoted (s : List Char) : unquote ('"' :: (s ++ ['"'])) = s := by
  simp [unquote]

theorem unquote_bare (h : ∀ c ∈ s, c ≠ '"') : unquote s = s := by
  cases s with
  | nil => rfl
  | cons c s =>
    have hc := h c List.mem_cons_self
    unfold unquote
    split
    · rename_i heq
      exact absurd (List.cons.inj heq).1 hc
    · rfl

/-- an item as a client writes it -/
structure Item where
  key : String
  value : String
  quoted : Bool
deriving DecidableEq, Repr

/-- a key that an item can have -/
structure IsKey (key : String) : Prop where
  ne : key ≠ ""
  trimmed : Text.Trimmed key.toList
  plain : ∀ c ∈ key.toList, c ≠ ',' ∧ c ≠ '=' ∧ c ≠ '"'

/-- The value can be written: in quotes if it has none itself, and without them if it is trimmed and has no comma
either. -/
structure Writable (value : String) (quoted : Bool) : Prop where
  plain : ∀ c ∈ value.toList, c ≠ '"'
  trimmed : quoted = false → Text.Trimmed value.toList
  comma : quoted = false → ∀ c ∈ value.toList, c ≠ ','

namespace Item

/-- the value, in quotes if it is to be -/
def field (x : Item) : String := if x.quoted then "\"" ++ x.value ++ "\"" else x.value

def text (x : Item) : String := x.key ++ "=" ++ x.field

structure WellFormed (x : Item) : Prop where
  key : IsKey x.key
  value : Writable x.value x.quoted

variable {x : Item}

theorem toList_field (x : Item) :
    x.field.toList = if x.quoted then '"' :: (x.value.toList ++ ['"']) else x.value.toList := by
  unfold field
  split_ifs <;> simp

theorem toList_text (x : Item) : x.text.toList = x.key.toList ++ '=' :: x.field.toList := by
  simp [text]

theorem WellFormed.unquote_field (h : x.WellFormed) : unquote x.field.toList = x.value.toList := by
  rw [toList_field]
  split_ifs with hquoted
  · exact unquote_quoted _
  · exact unquote_bare h.value.plain

theorem WellFormed.trimmed_field (h : x.WellFormed) : Text.Trimmed x.field.toList := by
  rw [toList_field]
  split_ifs with hquoted
  · refine ⟨fun c hc => ?_, fun c hc => ?_⟩
    · rw [List.head?_cons, Option.mem_some] at hc
      rw [← hc]
      decide
    · rw [← List.cons_append, List.getLast?_concat, Option.mem_some] at hc
      rw [← hc]
      decide
  · exact h.value.trimmed (Bool.eq_false_iff.2 hquoted)

theorem WellFormed.passes_field (h : x.WellFormed) : Passes false x.field.toList false := by
  rw [toList_field]
  split_ifs with hquoted
  · exact .quoted h.value.plain
  · have hcomma := h.value.comma (Bool.eq_false_iff.2 hquoted)
    exact .plain fun c hc => ⟨h.value.plain c hc, fun _ => hcomma c hc⟩

theorem WellFormed.passes_text (h : x.WellFormed) : Passes false x.text.toList false := by
  have hkey : Passes false x.key.toList false :=
    .plain fun c hc => ⟨(h.key.plain c hc).2.2, fun _ => (h.key.plain c hc).1⟩
  have hequal : Passes false ['='] false := .plain (by simp)
  rw [toList_text]
  exact hkey.append (hequal.append h.passes_field)

theorem WellFormed.key_toList_ne (h : x.WellFormed) : x.key.toList ≠ [] := by
  intro hnil
  exact h.key.ne (String.toList_eq_nil_iff.1 hnil)

theorem WellFormed.trimmed_text (h : x.WellFormed) : Text.Trimmed x.text.toList := by
  have hequal : Text.Trimmed ['='] := by
    constructor <;> simp [Text.isBlank]
  have hrest : Text.Trimmed ('=' :: x.field.toList) := by
    by_cases hnil : x.field.toList = []
    · rw [hnil]
      exact hequal
    · exact hequal.append h.trimmed_field (by simp) hnil
  rw [toList_text]
  exact h.key.trimmed.append hrest h.key_toList_ne (by simp)

theorem text_ne (x : Item) : x.text.toList ≠ [] := by
  rw [toList_text]
  simp

theorem WellFormed.keyValue? (h : x.WellFormed) :
    keyValue? x.text.toList = some (x.key.toList, x.field.toList) := by
  rw [toList_text]
  exact keyValue?_append (fun c hc => (h.key.plain c hc).2.1) h.key.trimmed h.trimmed_field

end Item

/-! ## Arguments -/

/-- the items one after the other, a comma and a blank between two -/
def render (xs : List Item) : String := Text.commas (xs.map Item.text)

variable {x : Item} {xs ys : List Item}

theorem items_single (h : x.WellFormed) : items x.text.toList = [x.text.toList] := by
  have hsplit : splitItems false x.text.toList = [x.text.toList] := by
    have hpass := h.passes_text []
    rw [List.append_nil] at hpass
    rw [hpass]
    simp [splitItems]
  rw [items, hsplit, List.map_singleton, Text.trim_of_trimmed h.trimmed_text,
    List.filter_cons_of_pos (by simpa using x.text_ne), List.filter_nil]

theorem items_cons (h : x.WellFormed) (rest : List Char) :
    items (x.text.toList ++ ',' :: ' ' :: rest) = x.text.toList :: items rest := by
  rw [← items_of_blank rest, items, h.passes_text.comma, List.map_cons, Text.trim_of_trimmed h.trimmed_text,
    List.filter_cons_of_pos (by simpa using x.text_ne), ← items]

theorem toList_render_cons (x y : Item) (xs : List Item) :
    (render (x :: y :: xs)).toList = x.text.toList ++ ',' :: ' ' :: (render (y :: xs)).toList := by
  simp only [render, Text.commas, String.toList_intercalate, List.map_cons, List.intercalate_cons_cons]
  simp

/-- the splitter finds the items that were written -/
theorem items_render (h : ∀ x ∈ xs, x.WellFormed) : items (render xs).toList = xs.map fun x => x.text.toList := by
  induction xs with
  | nil => rfl
  | cons x xs ih =>
    obtain ⟨hx, hxs⟩ := List.forall_mem_cons.1 h
    cases xs with
    | nil =>
      have hone : render [x] = x.text := by simp [render, Text.commas]
      rw [hone, items_single hx]
      rfl
    | cons y ys =>
      rw [toList_render_cons, items_cons hx, ih hxs]
      rfl

/-- the search finds the first item with the key -/
theorem findChars_render (h : ∀ x ∈ xs, x.WellFormed) (key : String) :
    findChars (render xs).toList key.toList = (xs.find? fun x => x.key = key).map fun x => x.field.toList := by
  rw [findChars, items_render h]
  induction xs with
  | nil => rfl
  | cons x xs ih =>
    obtain ⟨hx, hxs⟩ := List.forall_mem_cons.1 h
    rw [List.map_cons, List.findSome?_cons, hx.keyValue?]
    simp only [String.toList_inj]
    by_cases hkey : x.key = key
    · simp only [List.find?_cons, decide_eq_true hkey, if_pos hkey, Option.map_some]
    · simp only [List.find?_cons, decide_eq_false hkey, if_neg hkey]
      exact ih hxs

/-- The text of a key is the value of the first item with that key, whatever the values contain. -/
theorem string_render (h : ∀ x ∈ xs, x.WellFormed) (key : String) :
    string (render xs) key = (xs.find? fun x => x.key = key).map Item.value := by
  rw [string, findChars_render h, Option.map_map]
  refine Option.map_congr fun x hx => ?_
  rw [Function.comp_apply, (h x (List.mem_of_find?_eq_some hx)).unquote_field, String.ofList_toList]

theorem find_render (h : ∀ x ∈ xs, x.WellFormed) (key : String) :
    find (render xs) key = (xs.find? fun x => x.key = key).map Item.field := by
  rw [find, findChars_render h, Option.map_map]
  refine Option.map_congr fun x _ => ?_
  rw [Function.comp_apply, String.ofList_toList]

/-- among items with different keys the order does not matter -/
theorem find?_of_perm (hperm : xs.Perm ys) (hkeys : (ys.map Item.key).Nodup) (hx : x ∈ ys) :
    (xs.find? fun y => y.key = x.key) = some x := by
  have hmem : x ∈ xs := hperm.mem_iff.2 hx
  cases hfind : xs.find? fun y => y.key = x.key with
  | none => exact absurd (List.find?_eq_none.1 hfind x hmem) (by simp)
  | some y =>
    have hy : y ∈ ys := hperm.mem_iff.1 (List.mem_of_find?_eq_some hfind)
    have hkey : y.key = x.key := by simpa using List.find?_some hfind
    exact congrArg some (List.inj_on_of_nodup_map hkeys hy hx hkey)

/-! ## Numbers -/

theorem digitValue?_ten (h : c.isDigit = true) : digitValue? 10 c = some (c.toNat - '0'.toNat) := by
  have hrange : '0' ≤ c ∧ c ≤ '9' := by
    simpa [Char.isDigit, Char.le_def] using h
  have hlow : '0'.toNat ≤ c.toNat := UInt32.le_iff_toNat_le.1 hrange.1
  have hhigh : c.toNat ≤ '9'.toNat := UInt32.le_iff_toNat_le.1 hrange.2
  have hlt : c.toNat - '0'.toNat < 10 := by
    simp only [Char.reduceToNat] at hlow hhigh ⊢
    omega
  simp only [digitValue?, if_pos hrange, if_pos hlt]

/-- decimal digits are read as the number they write -/
theorem digitsFrom_ten (h : ∀ c ∈ s, c.isDigit = true) (n : ℕ) :
    digitsFrom 10 n s = some (Nat.ofDigitChars 10 s n) := by
  induction s generalizing n with
  | nil => rw [digitsFrom, Nat.ofDigitChars_nil]
  | cons c s ih =>
    obtain ⟨hc, hs⟩ := List.forall_mem_cons.1 h
    rw [digitsFrom, digitValue?_ten hc, Nat.ofDigitChars_cons, Nat.mul_comm 10 n]
    exact ih hs _

theorem isDigit_of_mem {n : ℕ} (h : c ∈ Nat.toDigits 10 n) : c.isDigit = true :=
  Nat.isDigit_of_mem_toDigits (by decide) (by decide) h

/-- nothing but digits is among the digits of a number -/
theorem not_mem_toDigits {n : ℕ} (h : c.isDigit = false) : c ∉ Nat.toDigits 10 n := by
  intro hmem
  rw [isDigit_of_mem hmem] at h
  cases h

theorem digits?_toDigits (n : ℕ) : digits? 10 (Nat.toDigits 10 n) = some n := by
  rw [digits?, if_neg Nat.toDigits_ne_nil, digitsFrom_ten fun _ => isDigit_of_mem, Nat.ofDigitChars_ten_toDigits]

/-- digits have no sign in front -/
theorem unsigned?_toDigits {n : ℕ} (hn : n < wordEnd) : unsigned? 10 (Nat.toDigits 10 n) = some n := by
  unfold unsigned?
  split
  · rename_i heq
    exact absurd (heq ▸ List.mem_cons_self) (not_mem_toDigits (c := '+') (n := n) (by decide))
  · rw [digits?_toDigits, Option.filter_some, if_pos (decide_eq_true hn)]

/-- nor is there a mark of another radix -/
theorem magnitude?_toDigits {n : ℕ} (hn : n < wordEnd) : magnitude? (Nat.toDigits 10 n) = some n := by
  unfold magnitude?
  split
  · rename_i heq
    exact absurd (heq ▸ List.mem_cons_of_mem _ List.mem_cons_self) (not_mem_toDigits (c := 'x') (n := n) (by decide))
  · exact unsigned?_toDigits hn

/-- nor a suffix behind -/
theorem splitSuffix_toDigits (n : ℕ) : splitSuffix (Nat.toDigits 10 n) = (Nat.toDigits 10 n, 0) := by
  have hlast : (Nat.toDigits 10 n).getLast?.bind suffixShift? = none := by
    refine Option.bind_eq_none_iff.2 fun c hc => ?_
    have hmem : c ∈ Nat.toDigits 10 n := List.mem_of_getLast? hc
    unfold suffixShift?
    split_ifs with hkilo hmega hgiga
    · rcases hkilo with rfl | rfl <;> exact absurd hmem (not_mem_toDigits (by decide))
    · rcases hmega with rfl | rfl <;> exact absurd hmem (not_mem_toDigits (by decide))
    · rcases hgiga with rfl | rfl <;> exact absurd hmem (not_mem_toDigits (by decide))
    · rfl
  rw [splitSuffix, hlast]

/-- a word written in decimal is read as it is -/
theorem read_decimal (n : UInt64) : scaled? (toString n.toNat).toList = some n := by
  have hword : n.toNat < wordEnd := n.toNat_lt
  rw [Nat.toString_eq_repr, Nat.toList_repr, scaled?, splitSuffix_toDigits]
  simp only [magnitude?_toDigits hword, Nat.shiftLeft_zero, if_pos hword, UInt64.ofNat_toNat]

/-- so is a signed word -/
theorem read_signed_decimal (n : Int64) : signed? (toString n.toInt).toList = some n.toInt := by
  have hlow := n.le_toInt
  have hhigh := n.toInt_lt
  have hrange : (decide (-0x8000000000000000 ≤ n.toInt) && decide (n.toInt < 0x8000000000000000)) = true := by
    simp only [Bool.and_eq_true, decide_eq_true_eq]
    omega
  rw [Int.toString_eq_repr, Int.repr_eq_if]
  split_ifs with hsign
  · have hnat : Int.ofNat n.toInt.toNat = n.toInt := Int.toNat_of_nonneg hsign
    rw [Nat.toList_repr]
    unfold signed?
    split
    · rename_i heq
      exact absurd (heq ▸ List.mem_cons_self) (not_mem_toDigits (c := '+') (n := n.toInt.toNat) (by decide))
    · rename_i heq
      exact absurd (heq ▸ List.mem_cons_self) (not_mem_toDigits (c := '-') (n := n.toInt.toNat) (by decide))
    · rw [digits?_toDigits, Option.map_some, hnat, Option.filter_some, if_pos hrange]
  · have hnat : -Int.ofNat (-n.toInt).toNat = n.toInt := by
      have hpos : Int.ofNat (-n.toInt).toNat = -n.toInt := Int.toNat_of_nonneg (by omega)
      rw [hpos, neg_neg]
    have hchars : ("-" ++ (-n.toInt).toNat.repr).toList = '-' :: Nat.toDigits 10 (-n.toInt).toNat := by
      rw [String.toList_append, Nat.toList_repr]
      rfl
    rw [hchars, signed?]
    simp only [digits?_toDigits, Option.map_some, hnat, Option.filter_some, if_pos hrange]

/-! ## Configurations -/

/-- what a number in decimal is written with -/
def Numeral (c : Char) : Prop := c.isDigit = true ∨ c = '-'

theorem numeral_of_mem_nat {n : ℕ} (h : c ∈ (toString n).toList) : Numeral c := by
  rw [Nat.toString_eq_repr, Nat.toList_repr] at h
  exact Or.inl (isDigit_of_mem h)

theorem numeral_of_mem_int {n : ℤ} (h : c ∈ (toString n).toList) : Numeral c := by
  rw [Int.toString_eq_repr, Int.repr_eq_if] at h
  split_ifs at h
  · exact numeral_of_mem_nat h
  · rw [String.toList_append, List.mem_append] at h
    rcases h with h | h
    · exact Or.inr (by simpa using h)
    · exact numeral_of_mem_nat h

theorem Numeral.plain (h : Numeral c) : Text.isBlank c = false ∧ c ≠ ',' ∧ c ≠ '"' := by
  rcases h with hdigit | rfl
  · have hrange : '0' ≤ c ∧ c ≤ '9' := by
      simpa [Char.isDigit, Char.le_def] using hdigit
    have hlow : '0'.toNat ≤ c.toNat := UInt32.le_iff_toNat_le.1 hrange.1
    have hhigh : c.toNat ≤ '9'.toNat := UInt32.le_iff_toNat_le.1 hrange.2
    simp only [Char.reduceToNat] at hlow hhigh
    refine ⟨?_, ?_, ?_⟩
    · simp [Text.isBlank]
      omega
    · rintro rfl
      exact absurd hdigit (by decide)
    · rintro rfl
      exact absurd hdigit (by decide)
  · decide

/-- a number in decimal needs no quotes -/
theorem writable_of_numerals {number : String} (h : ∀ c ∈ number.toList, Numeral c) : Writable number false where
  plain c hc := (h c hc).plain.2.2
  trimmed _ :=
    { first := fun c hc => (h c (List.mem_of_head? hc)).plain.1
      last := fun c hc => (h c (List.mem_of_getLast? hc)).plain.1 }
  comma _ c hc := (h c hc).plain.2.1

/-- the four items that a client writes for a configuration -/
def configItems (label : String) (quoted : Bool) (priority : Int64) (ram caps : UInt64) : List Item :=
  [⟨"label", label, quoted⟩, ⟨"priority", toString priority.toInt, false⟩, ⟨"ram_quota", toString ram.toNat, false⟩,
    ⟨"cap_quota", toString caps.toNat, false⟩]

variable {label : String} {quoted : Bool} {priority : Int64} {ram caps : UInt64}

/-- a word that was written is read again, if no earlier item has its key -/
theorem unsigned_render {key : String} {n : UInt64} (h : ∀ x ∈ xs, x.WellFormed)
    (hfound : (xs.find? fun x => x.key = key) = some ⟨key, toString n.toNat, false⟩) (default : UInt64) :
    unsigned (render xs) key default = .ok n := by
  rw [unsigned, find_render h, hfound]
  simp only [Option.map_some, Item.field, Bool.false_eq_true, if_false, read_decimal]

theorem signed_render {key : String} {n : Int64} (h : ∀ x ∈ xs, x.WellFormed)
    (hfound : (xs.find? fun x => x.key = key) = some ⟨key, toString n.toInt, false⟩) (default : ℤ) :
    signed (render xs) key default = .ok n.toInt := by
  rw [signed, find_render h, hfound]
  simp only [Option.map_some, Item.field, Bool.false_eq_true, if_false, read_signed_decimal]

theorem isKey_config : ∀ key ∈ ["label", "priority", "ram_quota", "cap_quota"], IsKey key := by
  simp only [List.forall_mem_cons, List.not_mem_nil, false_implies, implies_true, and_true]
  refine ⟨?_, ?_, ?_, ?_⟩ <;> exact ⟨by decide, ⟨by simp [Text.isBlank], by simp [Text.isBlank]⟩, by simp⟩

theorem wellFormed_configItems (h : Writable label quoted) :
    ∀ x ∈ configItems label quoted priority ram caps, x.WellFormed := by
  have hword : ∀ n : UInt64, Writable (toString n.toNat) false := fun n =>
    writable_of_numerals fun _ => numeral_of_mem_nat
  simp only [configItems, List.forall_mem_cons, List.not_mem_nil, false_implies, implies_true, and_true]
  exact ⟨⟨isKey_config "label" (by decide), h⟩,
    ⟨isKey_config "priority" (by decide), writable_of_numerals fun _ => numeral_of_mem_int⟩,
    ⟨isKey_config "ram_quota" (by decide), hword ram⟩, ⟨isKey_config "cap_quota" (by decide), hword caps⟩⟩

/-- In whatever order the four items are written, each is read as it was meant. -/
theorem ofArgs_render (h : Writable label quoted) (hperm : xs.Perm (configItems label quoted priority ram caps)) :
    Config.ofArgs (render xs) =
      .ok ⟨(min (max priority.toInt 0) Config.maxPriority).toNat, ram, caps, label, false⟩ := by
  have hformed : ∀ x ∈ xs, x.WellFormed := fun x hx => wellFormed_configItems h x (hperm.mem_iff.1 hx)
  have hkeys : ((configItems label quoted priority ram caps).map Item.key).Nodup := by
    simp only [configItems, List.map_cons, List.map_nil]
    decide
  have hfound : ∀ x ∈ configItems label quoted priority ram caps, (xs.find? fun y => y.key = x.key) = some x :=
    fun x hx => find?_of_perm hperm hkeys hx
  simp only [configItems, List.forall_mem_cons, List.not_mem_nil, false_implies, implies_true, and_true] at hfound
  obtain ⟨hlabel, hpriority, hram, hcaps⟩ := hfound
  have htext : string (render xs) "label" = some label := by
    rw [string_render hformed, hlabel, Option.map_some]
  have hcut : min priority.toInt.toNat Config.maxPriority =
      (min (max priority.toInt 0) Config.maxPriority).toNat := by omega
  simp only [Config.ofArgs, Config.read, signed_render hformed hpriority, unsigned_render hformed hram,
    unsigned_render hformed hcaps, htext, Option.getD_some, Config.withPriority, Config.default, hcut]

/-- **Session arguments survive quoting.** Whatever the values contain, the text of a key is the value of the first item
with that key. So whatever label without quotes a client chooses, and in whatever order it writes the items, the
configuration has that label, the priority and quotas that were written, the priority cut to its range, and no rollback:
no label can add or hide another argument. -/
theorem arguments_survive_quoting :
    (∀ xs : List Item, (∀ x ∈ xs, x.WellFormed) → ∀ key,
      string (render xs) key = (xs.find? fun x => x.key = key).map Item.value) ∧
    ∀ (label : String) (quoted : Bool) (priority : Int64) (ram caps : UInt64) (xs : List Item),
      (∀ c ∈ label.toList, c ≠ '"') → quoted = true ∨ Writable label false →
      xs.Perm (configItems label quoted priority ram caps) →
      Config.ofArgs (render xs) = .ok ⟨(min (max priority.toInt 0) 65535).toNat, ram, caps, label, false⟩ := by
  refine ⟨fun xs h key => string_render h key, fun label quoted priority ram caps xs hlabel hwritten hperm => ?_⟩
  have hlabel' : Writable label quoted := by
    rcases hwritten with rfl | hbare
    · exact ⟨hlabel, fun h => (by cases h), fun h => (by cases h)⟩
    · exact ⟨hlabel, fun _ => hbare.trimmed rfl, fun _ => hbare.comma rfl⟩
  exact ofArgs_render hlabel' hperm

/-- a label that looks like further arguments, and then the arguments -/
def disguisedItems : List Item :=
  [⟨"label", " a, priority=9, cap_quota=0 ", true⟩, ⟨"cap_quota", "7", false⟩, ⟨"priority", "70000", false⟩,
    ⟨"ram_quota", "65536", false⟩]

theorem arguments_survive_quoting_disguised :
    render disguisedItems =
        "label=\" a, priority=9, cap_quota=0 \", cap_quota=7, priority=70000, ram_quota=65536" ∧
      (∀ key, string (render disguisedItems) key = (disguisedItems.find? fun x => x.key = key).map Item.value) ∧
      Config.ofArgs (render disguisedItems) = .ok ⟨65535, 65536, 7, " a, priority=9, cap_quota=0 ", false⟩ := by
  have hperm : disguisedItems.Perm (configItems " a, priority=9, cap_quota=0 " true 70000 65536 7) := by
    decide +kernel
  have hlabel : Writable " a, priority=9, cap_quota=0 " true :=
    ⟨by simp, fun h => (by cases h), fun h => (by cases h)⟩
  have hformed : ∀ x ∈ disguisedItems, x.WellFormed := fun x hx =>
    wellFormed_configItems hlabel x (hperm.mem_iff.1 hx)
  exact ⟨by decide +kernel, arguments_survive_quoting.1 _ hformed,
    arguments_survive_quoting.2 _ true 70000 65536 7 _ (by simp) (Or.inl rfl) hperm⟩

end Args
end NestedGuest
