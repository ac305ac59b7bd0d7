import I8086.CommandLine.Value
import Mathlib

/-!
# Texts that are values of options

The readers of `CommandLine.Value` look at a text from the left and stop at the first character
that cannot be right. Here the values of options are described as texts: a number is a row of digits
after an optional plus sign, a window size two numbers around the first separator, and so on. A
reader returns a value exactly if the text describes it. In particular it reads back what has been
printed.
-/

namespace I8086.CommandLine

/-! ## Letters and digits in either case -/

/-- A character is a small letter, or its capital. What is no letter has no other capital. -/
def AnyCase (c l : Char) : Prop := c = l ∨ c = l.toUpper

theorem anyCase_iff {c l : Char} (small : l.toLower = l) : AnyCase c l ↔ c.toLower = l := by
  constructor
  · rintro (rfl | rfl)
    · exact small
    · rw [Char.toLower_toUpper_eq_toLower, small]
  · rintro rfl
    by_cases capital : c.isUpper
    · have kept := Char.toUpper_eq_of_not_isLower (Char.not_isLower_of_isUpper capital)
      exact .inr (by rw [Char.toUpper_toLower_eq_toUpper, kept])
    · exact .inl (Char.toLower_eq_of_not_isUpper capital).symm

/-- A character is the digit with a value. -/
def IsDigit (radix : Nat) (c : Char) (d : Nat) : Prop := d < radix ∧ AnyCase c d.digitChar

theorem toLower_digitChar {d : Nat} (h : d < 16) : d.digitChar.toLower = d.digitChar := by
  interval_cases d <;> decide

theorem digitValue?_eq_some_iff {radix d : Nat} {c : Char} (small : radix ≤ 16) :
    digitValue? radix c = some d ↔ IsDigit radix c d := by
  constructor
  · intro read
    simp only [digitValue?, Option.ite_none_right_eq_some, Option.some.injEq] at read
    obtain ⟨below, value⟩ := read
    rw [value] at below
    refine ⟨below, ?_⟩
    have inside : d < 16 := Nat.lt_of_lt_of_le below small
    simp only [Char.isDigit_iff_toNat, Char.le_def, UInt32.le_iff_toNat_le, Char.toNat_val,
      Char.reduceToNat] at value
    split at value
    · have code : c.toNat = 48 + d := by omega
      have range : d < 10 := by omega
      left
      interval_cases d <;> exact Char.toNat_inj.1 code
    split at value
    · have code : c.toNat = 87 + d := by omega
      have range : 10 ≤ d := by omega
      left
      interval_cases d <;> exact Char.toNat_inj.1 code
    split at value
    · have code : c.toNat = 55 + d := by omega
      have range : 10 ≤ d := by omega
      right
      interval_cases d <;> exact Char.toNat_inj.1 code
    · exact absurd value (Nat.ne_of_gt below)
  · rintro ⟨below, digit⟩
    have inside : d < 16 := Nat.lt_of_lt_of_le below small
    have value : (if c.isDigit then c.toNat - '0'.toNat
        else if 'a' ≤ c ∧ c ≤ 'f' then c.toNat - 'a'.toNat + 10
        else if 'A' ≤ c ∧ c ≤ 'F' then c.toNat - 'A'.toNat + 10 else radix) = d := by
      interval_cases d <;> obtain rfl | rfl := digit <;> rfl
    rw [digitValue?, value]
    exact if_pos below

theorem isDigit_iff {radix d : Nat} {c : Char} (small : radix ≤ 16) :
    IsDigit radix c d ↔ d < radix ∧ c.toLower = d.digitChar :=
  and_congr_right fun below =>
    anyCase_iff (toLower_digitChar (Nat.lt_of_lt_of_le below small))

/-! ## Numbers -/

/-- A text is a row of digits, the highest first, and stands for a number. -/
def IsDigits (radix : Nat) (cs : List Char) (n : Nat) : Prop :=
  cs ≠ [] ∧ ∃ values, List.Forall₂ (IsDigit radix) cs values ∧ Nat.ofDigits radix values.reverse = n

/-- A text is a number up to a bound: digits, and before them a plus sign or nothing. -/
def IsNumber (radix bound : Nat) (cs : List Char) (n : Nat) : Prop :=
  n ≤ bound ∧ (IsDigits radix cs n ∨ ∃ digits, cs = '+' :: digits ∧ IsDigits radix digits n)

section

variable {radix bound n : Nat} {cs : List Char}

/-- What has been read so far is the high part of the number. -/
theorem ofDigits_reverse_cons (value d : Nat) (values : List Nat) :
    value * radix ^ (d :: values).length + Nat.ofDigits radix (d :: values).reverse =
      (value * radix + d) * radix ^ values.length + Nat.ofDigits radix values.reverse := by
  rw [List.reverse_cons, Nat.ofDigits_append, Nat.ofDigits_singleton, List.length_reverse,
    List.length_cons]
  ring

/-- Reading stops as soon as the bound is exceeded, but then the whole number exceeds it too. -/
theorem parseDigits_eq_ok_iff (small : radix ≤ 16) {value : Nat} (le : value ≤ bound) :
    parseDigits radix bound cs value = .ok n ↔
      n ≤ bound ∧ ∃ values, List.Forall₂ (IsDigit radix) cs values ∧
        value * radix ^ values.length + Nat.ofDigits radix values.reverse = n := by
  induction cs generalizing value with
  | nil =>
      simp only [parseDigits, Except.ok.injEq, List.forall₂_nil_left_iff, exists_eq_left,
        List.length_nil, pow_zero, mul_one, List.reverse_nil, Nat.ofDigits_nil, add_zero]
      exact ⟨fun same => ⟨same ▸ le, same⟩, And.right⟩
  | cons c cs ih =>
      simp only [List.forall₂_cons_left_iff]
      rw [parseDigits]
      cases read : digitValue? radix c with
      | none =>
          refine ⟨nofun, ?_⟩
          rintro ⟨-, -, ⟨d, values, digit, -, rfl⟩, -⟩
          rw [(digitValue?_eq_some_iff small).2 digit] at read
          nomatch read
      | some d =>
          have digit := (digitValue?_eq_some_iff small).1 read
          have only {e : Nat} (other : IsDigit radix c e) : e = d :=
            Option.some.inj (((digitValue?_eq_some_iff small).2 other).symm.trans read)
          dsimp only
          split
          · rename_i exceeded
            refine ⟨nofun, ?_⟩
            rintro ⟨within, -, ⟨e, values, other, -, rfl⟩, rfl⟩
            obtain rfl := only other
            have positive : 0 < radix ^ values.length :=
              Nat.pow_pos (Nat.zero_lt_of_lt digit.1)
            have high := Nat.le_mul_of_pos_right (value * radix + e) positive
            rw [ofDigits_reverse_cons] at within
            omega
          · rename_i within
            rw [ih (Nat.le_of_not_lt within)]
            refine and_congr_right fun _ => ⟨?_, ?_⟩
            · rintro ⟨values, row, number⟩
              exact ⟨d :: values, ⟨d, values, digit, row, rfl⟩,
                (ofDigits_reverse_cons value d values).trans number⟩
            · rintro ⟨-, ⟨e, values, other, row, rfl⟩, number⟩
              obtain rfl := only other
              exact ⟨values, row, (ofDigits_reverse_cons value e values).symm.trans number⟩

theorem parseDigits_zero_eq_ok_iff (small : radix ≤ 16) (some_digit : cs ≠ []) :
    parseDigits radix bound cs 0 = .ok n ↔ n ≤ bound ∧ IsDigits radix cs n := by
  rw [parseDigits_eq_ok_iff small (Nat.zero_le bound), IsDigits]
  simp only [zero_mul, zero_add, some_digit, ne_eq, not_false_eq_true, true_and]

theorem not_isDigits_plus (small : radix ≤ 16) : ¬IsDigits radix ('+' :: cs) n := by
  rintro ⟨-, values, row, -⟩
  obtain ⟨d, -, digit, -⟩ := List.forall₂_cons_left_iff.1 row
  have none : digitValue? radix '+' = none := if_neg (Nat.lt_irrefl radix)
  rw [(digitValue?_eq_some_iff small).2 digit] at none
  nomatch none

/-- A number is read exactly if the text is one. -/
theorem parseUnsigned_eq_ok_iff (small : radix ≤ 16) :
    parseUnsigned radix bound cs = .ok n ↔ IsNumber radix bound cs n := by
  unfold IsNumber
  rw [parseUnsigned.eq_def]
  split
  · refine ⟨nofun, ?_⟩
    rintro ⟨-, ⟨empty, -⟩ | ⟨digits, same, -⟩⟩
    · exact absurd rfl empty
    · nomatch same
  · refine ⟨nofun, ?_⟩
    rintro ⟨-, row | ⟨digits, same, empty, -⟩⟩
    · exact absurd row (not_isDigits_plus small)
    · cases same
      exact absurd rfl empty
  · rename_i digits some_digit
    rw [parseDigits_zero_eq_ok_iff small some_digit]
    refine and_congr_right fun _ => ⟨fun row => .inr ⟨digits, rfl, row⟩, ?_⟩
    rintro (row | ⟨_, same, row⟩)
    · exact absurd row (not_isDigits_plus small)
    · cases same
      exact row
  · rename_i empty _ plus
    rw [parseDigits_zero_eq_ok_iff small empty]
    refine and_congr_right fun _ => ⟨.inl, ?_⟩
    rintro (row | ⟨digits, same, -⟩)
    · exact row
    · exact absurd same (plus digits)

/-- The bits of a number hold every number up to their largest value. -/
theorem parseBits_eq_ok_iff {w : Nat} {v : BitVec w} (small : radix ≤ 16)
    (all : bound = 2 ^ w - 1) :
    parseBits w radix cs = .ok v ↔ IsNumber radix bound cs v.toNat := by
  rw [← parseUnsigned_eq_ok_iff small, parseBits, BitVec.toNat_allOnes, ← all]
  constructor
  · intro read
    cases number : parseUnsigned radix bound cs with
    | error e =>
        rw [number] at read
        nomatch read
    | ok n =>
        rw [number] at read
        have within := ((parseUnsigned_eq_ok_iff small).1 number).1
        have positive := Nat.two_pow_pos w
        rw [← Except.ok.inj read, BitVec.toNat_ofNat, Nat.mod_eq_of_lt (by omega)]
  · intro read
    rw [read, Except.map, BitVec.ofNat_toNat, BitVec.setWidth_eq]

/-! ### Case -/

theorem isDigit_toLower {c : Char} {d : Nat} (small : radix ≤ 16) :
    IsDigit radix c.toLower d ↔ IsDigit radix c d := by
  rw [isDigit_iff small, isDigit_iff small, Char.toLower_toLower_eq_toLower]

theorem isDigits_map_toLower (small : radix ≤ 16) :
    IsDigits radix (cs.map Char.toLower) n ↔ IsDigits radix cs n := by
  simp only [IsDigits, ne_eq, List.map_eq_nil_iff, List.forall₂_map_left_iff, isDigit_toLower small]

theorem isNumber_map_toLower (small : radix ≤ 16) :
    IsNumber radix bound (cs.map Char.toLower) n ↔ IsNumber radix bound cs n := by
  have plus (c : Char) : c.toLower = '+' ↔ c = '+' := by
    rw [← anyCase_iff (by rfl)]
    exact or_self_iff
  refine and_congr_right fun _ => or_congr (isDigits_map_toLower small) ⟨?_, ?_⟩
  · rintro ⟨_, same, row⟩
    obtain ⟨c, digits, rfl, sign, rfl⟩ := List.map_eq_cons_iff.1 same
    rw [(plus c).1 sign]
    exact ⟨digits, rfl, (isDigits_map_toLower small).1 row⟩
  · rintro ⟨digits, rfl, row⟩
    exact ⟨digits.map Char.toLower, rfl, (isDigits_map_toLower small).2 row⟩

end

/-! ## Separators -/

theorem splitFirst?_cons (p : Char → Bool) (c : Char) (cs : List Char) :
    splitFirst? p (c :: cs) =
      if p c then some ([], cs) else (splitFirst? p cs).map fun (a, b) => (c :: a, b) := by
  unfold splitFirst?
  simp only [List.span_eq_takeWhile_dropWhile, List.takeWhile_cons, List.dropWhile_cons]
  cases p c with
  | true => rfl
  | false =>
      simp only [Bool.not_false, if_true, Bool.false_eq_true, if_false]
      cases cs.dropWhile fun c => !p c <;> rfl

/-- A text falls in two at its first separator. -/
theorem splitFirst?_eq_some_iff {p : Char → Bool} {cs a b : List Char} :
    splitFirst? p cs = some (a, b) ↔
      ∃ sep, cs = a ++ sep :: b ∧ p sep = true ∧ ∀ c ∈ a, p c = false := by
  induction cs generalizing a with
  | nil =>
      refine ⟨nofun, ?_⟩
      rintro ⟨sep, same, -⟩
      exact absurd same.symm (List.append_ne_nil_of_right_ne_nil a (List.cons_ne_nil sep b))
  | cons c cs ih =>
      rw [splitFirst?_cons]
      cases first : p c with
      | true =>
          constructor
          · rintro ⟨⟩
            exact ⟨c, rfl, first, nofun⟩
          · rintro ⟨sep, same, -, before⟩
            cases a with
            | nil =>
                cases same
                rfl
            | cons x a =>
                cases same
                rw [before c List.mem_cons_self] at first
                nomatch first
      | false =>
          rw [if_neg Bool.false_ne_true]
          constructor
          · intro later
            obtain ⟨⟨a', b'⟩, found, same⟩ := Option.map_eq_some_iff.1 later
            cases same
            obtain ⟨sep, rfl, isSep, before⟩ := ih.1 found
            exact ⟨sep, rfl, isSep, List.forall_mem_cons.2 ⟨first, before⟩⟩
          · rintro ⟨sep, same, isSep, before⟩
            cases a with
            | nil =>
                cases same
                rw [isSep] at first
                nomatch first
            | cons x a =>
                cases same
                rw [ih.2 ⟨sep, rfl, isSep, (List.forall_mem_cons.1 before).2⟩]
                rfl

theorem splitFirst?_eq_none_iff {p : Char → Bool} {cs : List Char} :
    splitFirst? p cs = none ↔ ∀ c ∈ cs, p c = false := by
  induction cs with
  | nil => exact ⟨nofun, fun _ => rfl⟩
  | cons c cs ih =>
      rw [splitFirst?_cons, List.forall_mem_cons]
      cases p c with
      | true => simp
      | false => simp [ih]

/-! ## Values of two numbers -/

/-- Two numbers are read one after the other, and both of them have to be there. -/
theorem both_eq_ok_iff {α β γ : Type} {x : Except NumberError α} {y : Except NumberError β}
    {f g : NumberError → ValueError} {make : α → β → γ} {r : γ} :
    (do
      let a ← x.mapError f
      let b ← y.mapError g
      return make a b) = Except.ok r ↔ ∃ a b, x = .ok a ∧ y = .ok b ∧ make a b = r := by
  cases x with
  | error e => exact ⟨nofun, nofun⟩
  | ok a =>
      cases y with
      | error e => exact ⟨nofun, nofun⟩
      | ok b =>
          refine ⟨fun read => ⟨a, b, rfl, rfl, Except.ok.inj read⟩, ?_⟩
          rintro ⟨a', b', first, second, rfl⟩
          rw [first, second]
          rfl

theorem parseWord_eq_ok_iff {cs : List Char} {v : Word} :
    parseBits 16 10 cs = .ok v ↔ IsNumber 10 65535 cs v.toNat :=
  parseBits_eq_ok_iff (by decide) rfl

theorem parseByte_eq_ok_iff {cs : List Char} {v : Byte} :
    parseBits 8 10 cs = .ok v ↔ IsNumber 10 255 cs v.toNat :=
  parseBits_eq_ok_iff (by decide) rfl

/-- A window size is two numbers around the first separator. -/
theorem parseWindow_eq_ok_iff {text : String} {w : Window} :
    parseWindow text = .ok w ↔
      ∃ left sep right, text.toList = left ++ sep :: right ∧ (sep = 'x' ∨ sep = 'X') ∧
        (∀ c ∈ left, c ≠ 'x' ∧ c ≠ 'X') ∧
        IsNumber 10 65535 left w.columns.toNat ∧ IsNumber 10 65535 right w.rows.toNat := by
  have isSep (c : Char) : (decide (c = 'x') || decide (c = 'X')) = true ↔ c = 'x' ∨ c = 'X' := by
    simp
  have noSep (c : Char) : (decide (c = 'x') || decide (c = 'X')) = false ↔ c ≠ 'x' ∧ c ≠ 'X' := by
    simp
  simp only [← parseWord_eq_ok_iff, ← isSep, ← noSep]
  constructor
  · intro read
    unfold parseWindow at read
    cases parts : splitFirst? (fun c => c = 'x' || c = 'X') text.toList with
    | none =>
        rw [parts] at read
        nomatch read
    | some parts' =>
        obtain ⟨left, right⟩ := parts'
        rw [parts] at read
        obtain ⟨_, _, columns, rows, rfl⟩ := both_eq_ok_iff.1 read
        obtain ⟨sep, cut, isSep, before⟩ := splitFirst?_eq_some_iff.1 parts
        exact ⟨left, sep, right, cut, isSep, before, columns, rows⟩
  · rintro ⟨left, sep, right, cut, isSep, before, columns, rows⟩
    have parts := splitFirst?_eq_some_iff.2 ⟨sep, cut, isSep, before⟩
    unfold parseWindow
    rw [parts]
    exact both_eq_ok_iff.2 ⟨_, _, columns, rows, rfl⟩

/-- A version is two numbers around the first point, or one number without any. -/
theorem parseVersion_eq_ok_iff {text : String} {v : Version} :
    parseVersion text = .ok v ↔
      (∃ left right, text.toList = left ++ '.' :: right ∧ '.' ∉ left ∧
        IsNumber 10 255 left v.major.toNat ∧ IsNumber 10 255 right v.minor.toNat) ∨
      '.' ∉ text.toList ∧ IsNumber 10 255 text.toList v.major.toNat ∧ v.minor = 0 := by
  have noPoint (cs : List Char) : '.' ∉ cs ↔ ∀ c ∈ cs, decide (c = '.') = false := by
    simp only [decide_eq_false_iff_not]
    exact ⟨fun absent c mem same => absent (same ▸ mem), fun none mem => none '.' mem rfl⟩
  have zero : parseBits 8 10 ['0'] = .ok 0 := by rfl
  simp only [← parseByte_eq_ok_iff, noPoint]
  constructor
  · intro read
    unfold parseVersion at read
    cases parts : splitFirst? (· = '.') text.toList with
    | none =>
        rw [parts] at read
        obtain ⟨_, minor, whole, none, rfl⟩ := both_eq_ok_iff.1 read
        exact .inr ⟨splitFirst?_eq_none_iff.1 parts, whole, Except.ok.inj (none.symm.trans zero)⟩
    | some parts' =>
        obtain ⟨left, right⟩ := parts'
        rw [parts] at read
        obtain ⟨_, _, major, minor, rfl⟩ := both_eq_ok_iff.1 read
        obtain ⟨sep, cut, isSep, before⟩ := splitFirst?_eq_some_iff.1 parts
        rw [of_decide_eq_true isSep] at cut
        exact .inl ⟨left, right, cut, before, major, minor⟩
  · unfold parseVersion
    rintro (⟨left, right, cut, before, major, minor⟩ | ⟨absent, whole, none⟩)
    · rw [splitFirst?_eq_some_iff.2 ⟨'.', cut, rfl, before⟩]
      exact both_eq_ok_iff.2 ⟨_, _, major, minor, rfl⟩
    · rw [splitFirst?_eq_none_iff.2 absent]
      exact both_eq_ok_iff.2 ⟨_, _, whole, none ▸ zero, rfl⟩

/-! ## Makers -/

/-- The names of a maker. -/
def names : Dos.Oem → List String
  | .ibm => ["ibm"]
  | .compaq => ["compaq"]
  | .zenith => ["zenith"]
  | .att => ["att", "at&t"]
  | .microsoft => ["microsoft", "ms"]

theorem forall₂_anyCase_iff {cs ls : List Char} (small : ls.map Char.toLower = ls) :
    List.Forall₂ AnyCase cs ls ↔ cs.map Char.toLower = ls := by
  rw [← List.forall₂_eq_eq_eq, List.forall₂_map_left_iff]
  induction ls generalizing cs with
  | nil => simp only [List.forall₂_nil_right_iff]
  | cons l ls ih =>
      obtain ⟨first, others⟩ := List.cons.inj small
      simp only [List.forall₂_cons_right_iff, anyCase_iff first, ih others]

/-- Names are written in small letters. -/
theorem toLower_of_mem_names {oem : Dos.Oem} {name : String} (mem : name ∈ names oem) :
    name.toList.map Char.toLower = name.toList := by
  cases oem <;> simp only [names, List.mem_cons, List.not_mem_nil, or_false] at mem
  case att | microsoft => obtain rfl | rfl := mem <;> rfl
  all_goals subst mem; rfl

/-- A name leads to its maker, and is no number. -/
theorem find?_oemNames {oem : Dos.Oem} {name : String} (mem : name ∈ names oem) :
    (∃ found, oemNames.find? (fun (other, _) => other.toList = name.toList) = some (found, oem)) ∧
      ∀ n, parseOemNumber name.toList ≠ .ok n := by
  cases oem <;> simp only [names, List.mem_cons, List.not_mem_nil, or_false] at mem
  case att | microsoft => obtain rfl | rfl := mem <;> exact ⟨⟨_, rfl⟩, nofun⟩
  all_goals subst mem; exact ⟨⟨_, rfl⟩, nofun⟩

theorem mem_names {oem : Dos.Oem} {name : String} (mem : (name, oem) ∈ oemNames) :
    name ∈ names oem := by
  have all : ∀ entry ∈ oemNames, entry.1 ∈ names entry.2 := by decide
  exact all _ mem

theorem ofNumber?_eq_some_iff {n : Byte} {oem : Dos.Oem} :
    Dos.Oem.ofNumber? n.toNat = some oem ↔ oem.number = n := by
  constructor
  · intro found
    have same := List.find?_some found
    exact BitVec.eq_of_toNat_eq (of_decide_eq_true same)
  · rintro rfl
    cases oem <;> rfl

/-- A maker is named, or else numbered. -/
theorem parseOem_eq_ok_iff_names {text : String} {oem : Dos.Oem} :
    parseOem text = .ok oem ↔
      (∃ name ∈ names oem, text.toList.map Char.toLower = name.toList) ∨
        parseOemNumber (text.toList.map Char.toLower) = .ok oem.number := by
  unfold parseOem
  dsimp only
  constructor
  · intro read
    split at read
    · rename_i name maker found
      cases read
      have entry := List.find?_some found
      have same := of_decide_eq_true entry
      exact .inl ⟨name, mem_names (List.mem_of_find?_eq_some found), same.symm⟩
    · split at read
      · nomatch read
      · rename_i n number
        split at read
        · rename_i maker found
          cases read
          rw [ofNumber?_eq_some_iff.1 found]
          exact .inr number
        · nomatch read
  · rintro (⟨name, mem, same⟩ | number)
    · obtain ⟨⟨found, entry⟩, -⟩ := find?_oemNames mem
      rw [same, entry]
    · split
      · rename_i name maker found
        have entry := List.find?_some found
        have same := of_decide_eq_true entry
        obtain ⟨-, noNumber⟩ := find?_oemNames (mem_names (List.mem_of_find?_eq_some found))
        exact absurd (same ▸ number) (noNumber _)
      · rw [number]
        dsimp only
        rw [ofNumber?_eq_some_iff.2 rfl]

theorem parseOemNumber_eq_ok_iff {cs : List Char} {n : Byte} :
    parseOemNumber cs = .ok n ↔
      IsNumber 10 255 cs n.toNat ∨ ∃ hex, cs = '0' :: 'x' :: hex ∧ IsNumber 16 255 hex n.toNat := by
  rw [parseOemNumber.eq_def]
  split
  · rename_i digits
    rw [parseBits_eq_ok_iff (by decide) rfl]
    constructor
    · exact fun number => .inr ⟨digits, rfl, number⟩
    · rintro (number | ⟨hex, same, number⟩)
      · have refused : parseUnsigned 10 255 ('0' :: 'x' :: digits) = .error .invalidDigit := rfl
        rw [(parseUnsigned_eq_ok_iff (by decide)).2 number] at refused
        nomatch refused
      · cases same
        exact number
  · rename_i noHex
    rw [parseByte_eq_ok_iff]
    constructor
    · exact .inl
    · rintro (number | ⟨hex, same, number⟩)
      · exact number
      · exact absurd same (noHex hex)

/-- A maker is given by one of its names in any case, by its number in decimal, or by its number in
hexadecimal after `0x`. -/
theorem parseOem_eq_ok_iff {text : String} {oem : Dos.Oem} :
    parseOem text = .ok oem ↔
      (∃ name ∈ names oem, List.Forall₂ AnyCase text.toList name.toList) ∨
        IsNumber 10 255 text.toList oem.number.toNat ∨
        ∃ x hex, text.toList = '0' :: x :: hex ∧ (x = 'x' ∨ x = 'X') ∧
          IsNumber 16 255 hex oem.number.toNat := by
  rw [parseOem_eq_ok_iff_names, parseOemNumber_eq_ok_iff, isNumber_map_toLower (by decide)]
  refine or_congr (exists_congr fun name => and_congr_right fun mem =>
    (forall₂_anyCase_iff (toLower_of_mem_names mem)).symm) (or_congr_right ⟨?_, ?_⟩)
  · rintro ⟨_, same, number⟩
    obtain ⟨c, cs, cut, zero, same⟩ := List.map_eq_cons_iff.1 same
    obtain ⟨x, hex, rfl, letter, rfl⟩ := List.map_eq_cons_iff.1 same
    have digit : c = '0' := or_self_iff.1 ((anyCase_iff (l := '0') rfl).2 zero)
    rw [digit] at cut
    exact ⟨x, hex, cut, (anyCase_iff (l := 'x') rfl).2 letter,
      (isNumber_map_toLower (by decide)).1 number⟩
  · rintro ⟨x, hex, cut, letter, number⟩
    have small : x.toLower = 'x' := (anyCase_iff rfl).1 letter
    refine ⟨hex.map Char.toLower, ?_, (isNumber_map_toLower (by decide)).2 number⟩
    rw [cut, List.map_cons, List.map_cons, small]
    rfl

/-! ## What is printed -/

section

variable {radix n : Nat} {cs : List Char}

/-- One more digit. -/
theorem IsDigits.append (row : IsDigits radix cs n) {d : Nat} (below : d < radix) :
    IsDigits radix (cs ++ [d.digitChar]) (d + radix * n) := by
  obtain ⟨-, values, digits, rfl⟩ := row
  refine ⟨by simp, values ++ [d], List.rel_append digits (.cons ⟨below, .inl rfl⟩ .nil), ?_⟩
  rw [List.reverse_append]
  exact Nat.ofDigits_cons

theorem isDigits_toDigits (binary : 1 < radix) (n : Nat) :
    IsDigits radix (Nat.toDigits radix n) n := by
  induction n using Nat.strongRecOn with
  | ind n ih =>
      rw [Nat.toDigits_eq_if binary]
      split
      · rename_i single
        exact ⟨List.cons_ne_nil _ _, [n], .cons ⟨single, .inl rfl⟩ .nil, Nat.ofDigits_singleton⟩
      · rename_i several
        have row := (ih (n / radix) (Nat.div_lt_self (by omega) binary)).append
          (Nat.mod_lt n (by omega))
        rwa [Nat.mod_add_div] at row

/-- Zeros on the left change nothing. -/
theorem IsDigits.replicate_append (row : IsDigits radix cs n) (positive : 0 < radix) (k : Nat) :
    IsDigits radix (List.replicate k '0' ++ cs) n := by
  obtain ⟨some_digit, values, digits, rfl⟩ := row
  have zeros : List.Forall₂ (IsDigit radix) (List.replicate k '0') (List.replicate k 0) := by
    induction k with
    | zero => exact .nil
    | succ k ih => exact .cons ⟨positive, .inl rfl⟩ ih
  refine ⟨by simp [some_digit], List.replicate k 0 ++ values, List.rel_append zeros digits, ?_⟩
  rw [List.reverse_append, List.reverse_replicate, Nat.ofDigits_append_replicate_zero]

theorem isDigits_map_toUpper (small : radix ≤ 16) :
    IsDigits radix (cs.map Char.toUpper) n ↔ IsDigits radix cs n := by
  rw [← isDigits_map_toLower small, List.map_map]
  simp only [Function.comp_def, Char.toLower_toUpper_eq_toLower]
  exact isDigits_map_toLower small

theorem isNumber_toString {bound : Nat} (within : n ≤ bound) :
    IsNumber 10 bound (toString n).toList n := by
  rw [Nat.toString_eq_repr, Nat.toList_repr]
  exact ⟨within, .inl (isDigits_toDigits (by decide) n)⟩

theorem isNumber_hex {bound : Nat} (within : n ≤ bound) (width : Nat) :
    IsNumber 16 bound (hex width n).toList n := by
  rw [hex, String.toList_ofList]
  have row : IsDigits 16 ((Nat.toDigits 16 n).map Char.toUpper) n :=
    (isDigits_map_toUpper (by decide)).2 (isDigits_toDigits (by decide) n)
  exact ⟨within, .inl (row.replicate_append (by decide) _)⟩

/-- What is no digit does not occur in a number that is printed. -/
theorem ne_of_mem_toString {c sep : Char} (mem : c ∈ (toString n).toList)
    (no : sep.isDigit = false) : c ≠ sep := by
  rw [Nat.toString_eq_repr, Nat.toList_repr] at mem
  have digit := Nat.isDigit_of_mem_toDigits (Nat.succ_pos 9) (Nat.le_refl 10) mem
  rintro rfl
  rw [no] at digit
  nomatch digit

end

/-- The values of options are exactly those that the texts describe, and what is printed is read
back: a size as `CxR`, a version as `M.N`, and a maker's number in decimal or in hexadecimal, with
small or with capital digits and any zeros before them. -/
theorem parse_exactly :
    (∀ (text : String) (w : Window), parseWindow text = .ok w ↔
      ∃ left sep right, text.toList = left ++ sep :: right ∧ (sep = 'x' ∨ sep = 'X') ∧
        (∀ c ∈ left, c ≠ 'x' ∧ c ≠ 'X') ∧
        IsNumber 10 65535 left w.columns.toNat ∧ IsNumber 10 65535 right w.rows.toNat) ∧
    (∀ (text : String) (v : Version), parseVersion text = .ok v ↔
      (∃ left right, text.toList = left ++ '.' :: right ∧ '.' ∉ left ∧
        IsNumber 10 255 left v.major.toNat ∧ IsNumber 10 255 right v.minor.toNat) ∨
      '.' ∉ text.toList ∧ IsNumber 10 255 text.toList v.major.toNat ∧ v.minor = 0) ∧
    (∀ (text : String) (oem : Dos.Oem), parseOem text = .ok oem ↔
      (∃ name ∈ names oem, List.Forall₂ AnyCase text.toList name.toList) ∨
        IsNumber 10 255 text.toList oem.number.toNat ∨
        ∃ x hex, text.toList = '0' :: x :: hex ∧ (x = 'x' ∨ x = 'X') ∧
          IsNumber 16 255 hex oem.number.toNat) ∧
    (∀ w : Window,
      parseWindow (toString w.columns.toNat ++ "x" ++ toString w.rows.toNat) = .ok w) ∧
    (∀ v : Version,
      parseVersion (toString v.major.toNat ++ "." ++ toString v.minor.toNat) = .ok v) ∧
    ∀ oem : Dos.Oem, parseOem (toString oem.number.toNat) = .ok oem ∧
      ∀ width, parseOem ("0x" ++ hex width oem.number.toNat) = .ok oem ∧
        parseOem ("0x" ++ (hex width oem.number.toNat).toLower) = .ok oem := by
  have byte (b : Byte) : b.toNat ≤ 255 := Nat.le_of_lt_succ b.isLt
  have word (w : Word) : w.toNat ≤ 65535 := Nat.le_of_lt_succ w.isLt
  refine ⟨fun _ _ => parseWindow_eq_ok_iff, fun _ _ => parseVersion_eq_ok_iff,
    fun _ _ => parseOem_eq_ok_iff, fun w => ?window, fun v => ?version,
    fun oem => ⟨?decimal, fun width => ⟨?capital, ?small⟩⟩⟩
  case window =>
    refine parseWindow_eq_ok_iff.2 ⟨(toString w.columns.toNat).toList, 'x',
      (toString w.rows.toNat).toList, by simp, .inl rfl, fun c mem => ?_,
      isNumber_toString (word _), isNumber_toString (word _)⟩
    exact ⟨ne_of_mem_toString mem rfl, ne_of_mem_toString mem rfl⟩
  case version =>
    refine parseVersion_eq_ok_iff.2 (.inl ⟨(toString v.major.toNat).toList,
      (toString v.minor.toNat).toList, by simp, fun mem => ?_,
      isNumber_toString (byte _), isNumber_toString (byte _)⟩)
    exact ne_of_mem_toString mem rfl rfl
  case decimal => exact parseOem_eq_ok_iff.2 (.inr (.inl (isNumber_toString (byte _))))
  case capital =>
    exact parseOem_eq_ok_iff.2 (.inr (.inr ⟨'x', (hex width oem.number.toNat).toList, by simp,
      .inl rfl, isNumber_hex (byte _) width⟩))
  case small =>
    refine parseOem_eq_ok_iff.2 (.inr (.inr ⟨'x', (hex width oem.number.toNat).toLower.toList,
      by simp, .inl rfl, ?_⟩))
    rw [String.toLower, String.toList_map]
    exact (isNumber_map_toLower (by decide)).2 (isNumber_hex (byte _) width)

end I8086.CommandLine
