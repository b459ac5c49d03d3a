import SculkProtocol.Json.Compact

/-!
# Compact JSON is read back

`parse_print`: the parser undoes the printer. A number ends where no digit follows, and every
other value shows where it ends, so a value is read back in front of any text that does not
begin with a digit (`parseValue_print`); the induction is on the parser's bound.
-/

namespace SculkProtocol
namespace Json

/-! ### Numbers -/

/-- A digit is behind `'0'`. -/
theorem toNat_digit {n : ℕ} (h : n < 10) : (UInt8.ofNat (48 + n)).toNat = 48 + n := by
  rw [UInt8.toNat_ofNat']
  omega

/-- A digit is one. -/
theorem isDigit_digit {n : ℕ} (h : n < 10) : isDigit (UInt8.ofNat (48 + n)) = true := by
  have := toNat_digit h
  simp only [isDigit, decide_eq_true_eq, UInt8.le_iff_toNat_le, this]
  constructor <;> simp
  omega

/-- Every number has a digit. -/
theorem digits_ne_nil (n : ℕ) : digits n ≠ [] := by
  rw [digits]
  split <;> simp

/-- The digits of a number are digits. -/
theorem isDigit_digits (n : ℕ) : ∀ c ∈ digits n, isDigit c = true := by
  induction n using digits.induct with
  | case1 n h =>
    rw [digits, if_pos h]
    intro c hc
    rw [List.mem_singleton.mp hc]
    exact isDigit_digit h
  | case2 n h ih =>
    rw [digits, if_neg h]
    intro c hc
    rcases List.mem_append.mp hc with hc | hc
    · exact ih c hc
    · rw [List.mem_singleton.mp hc]
      exact isDigit_digit (Nat.mod_lt _ (by omega))

/-- A number comes back from its digits. -/
theorem ofDigits_digits (n : ℕ) : ofDigits (digits n) = n := by
  induction n using digits.induct with
  | case1 n h =>
    rw [digits, if_pos h, ofDigits, List.foldl_cons, List.foldl_nil, toNat_digit h]
    omega
  | case2 n h ih =>
    have hmod : n % 10 < 10 := Nat.mod_lt _ (by omega)
    rw [ofDigits] at ih
    rw [digits, if_neg h, ofDigits, List.foldl_append, ih, List.foldl_cons, List.foldl_nil,
      toNat_digit hmod]
    omega

/-- A number ends here. -/
def NoDigit (rest : Bytes) : Prop := ∀ c ∈ rest.head?, isDigit c = false

/-- A text does not go on with a digit if its first character is none. -/
theorem noDigit_cons {c : UInt8} {rest : Bytes} (h : isDigit c = false) : NoDigit (c :: rest) := by
  intro d hd
  rw [List.head?_cons, Option.mem_some_iff] at hd
  exact hd ▸ h

variable {rest : Bytes}

/-- The digits of a number are parsed up to the text behind it. -/
theorem parseNat_digits (n : ℕ) (hrest : NoDigit rest) :
    parseNat (digits n ++ rest) = some (n, rest) := by
  have htake : (digits n ++ rest).takeWhile isDigit = digits n := by
    rw [List.takeWhile_append_of_pos (isDigit_digits n)]
    cases rest with
    | nil => simp
    | cons c rest => simp [hrest c rfl]
  have hdrop : (digits n ++ rest).dropWhile isDigit = rest := by
    rw [List.dropWhile_append_of_pos (isDigit_digits n)]
    cases rest with
    | nil => simp
    | cons c rest => simp [hrest c rfl]
  rw [parseNat, htake, hdrop, if_neg (digits_ne_nil n), ofDigits_digits]

/-- The text of a number begins with a digit. -/
theorem digits_head (n : ℕ) : ∃ c ds, digits n = c :: ds ∧ isDigit c = true := by
  cases hds : digits n with
  | nil => exact absurd hds (digits_ne_nil n)
  | cons c ds => exact ⟨c, ds, rfl, isDigit_digits n c (hds ▸ List.mem_cons_self)⟩

/-- A digit is not a character that is none. -/
theorem isDigit_ne {c d : UInt8} (hc : isDigit c = true) (hd : isDigit d = false) : c ≠ d := by
  rintro rfl
  rw [hc] at hd
  exact absurd hd (by simp)

/-- The text of an integer begins with a sign or a digit. -/
theorem printInt_head (n : ℤ) : ∃ c ds, printInt n = c :: ds ∧ (c = minus ∨ isDigit c = true) := by
  unfold printInt
  split
  · exact ⟨minus, digits n.natAbs, rfl, .inl rfl⟩
  · obtain ⟨c, ds, hds, hc⟩ := digits_head n.natAbs
    exact ⟨c, ds, hds, .inr hc⟩

/-- An integer is parsed up to the text behind it. -/
theorem parseInt_print (n : ℤ) (hrest : NoDigit rest) :
    parseInt (printInt n ++ rest) = some (n, rest) := by
  unfold printInt
  split
  · next hneg =>
    simp only [List.cons_append, parseInt, if_true, parseNat_digits _ hrest, Option.map_some]
    congr 2
    omega
  · next hpos =>
    obtain ⟨c, ds, hds, hc⟩ := digits_head n.natAbs
    have hminus : c ≠ minus := isDigit_ne hc (by decide)
    have hparse := parseNat_digits n.natAbs hrest
    rw [hds, List.cons_append] at hparse
    simp only [hds, List.cons_append, parseInt, if_neg hminus, hparse, Option.map_some]
    congr 2
    omega

/-! ### Strings -/

/-- A letter stands for the character it is written for. -/
theorem escapes_spec : ∀ n < 256, (escapes.lookup (UInt8.ofNat n)).all (fun letter =>
    letter != 117 && (escapes.map fun e => (e.2, e.1)).lookup letter == some (UInt8.ofNat n)) =
      true := by
  decide +kernel

/-- So do hexadecimal digits, and other characters do not end or escape anything. -/
theorem unescaped_spec : ∀ n < 256, escapes.lookup (UInt8.ofNat n) = none →
    UInt8.ofNat n ≠ quote ∧ UInt8.ofNat n ≠ backslash ∧ (UInt8.ofNat n < 32 →
      16 * hexValue (hexDigit (UInt8.ofNat n / 16)) + hexValue (hexDigit (UInt8.ofNat n % 16))
        = UInt8.ofNat n) := by
  decide +kernel

/-- One escaped character is read back. -/
theorem parseStringTail_escape (c : UInt8) (fuel : ℕ) (s : Bytes) :
    parseStringTail (fuel + 1) (escape c ++ s)
      = (parseStringTail fuel s).map fun (t, s) => (c :: t, s) := by
  have hescapes := escapes_spec c.toNat c.toNat_lt
  have hunescaped := unescaped_spec c.toNat c.toNat_lt
  rw [UInt8.ofNat_toNat] at hescapes hunescaped
  have hbackslash : ¬ backslash = quote := by decide
  unfold escape
  cases hletter : escapes.lookup c with
  -- an escape of one letter
  | some letter =>
    simp only [hletter, Option.all_some, Bool.and_eq_true, bne_iff_ne, ne_eq,
      beq_iff_eq] at hescapes
    simp only [List.cons_append, List.nil_append, parseStringTail, if_neg hbackslash, if_true,
      if_neg hescapes.1, hescapes.2]
  | none =>
    obtain ⟨hquote, hbackslash', hhex⟩ := hunescaped hletter
    simp only
    split
    · next hlt =>
      -- an escape by a number
      simp only [List.cons_append, List.nil_append, parseStringTail, if_neg hbackslash, if_true,
        hhex hlt]
    · simp only [List.cons_append, List.nil_append, parseStringTail, if_neg hquote,
        if_neg hbackslash']

/-- The characters of a string are read back, up to the quote. -/
theorem parseStringTail_print (s : Bytes) {fuel : ℕ} (h : s.length < fuel) :
    parseStringTail fuel (s.flatMap escape ++ quote :: rest) = some (s, rest) := by
  induction s generalizing fuel with
  | nil =>
    obtain ⟨fuel, rfl⟩ := Nat.exists_eq_succ_of_ne_zero (Nat.ne_of_gt h)
    simp [parseStringTail]
  | cons c s ih =>
    obtain ⟨fuel, rfl⟩ := Nat.exists_eq_succ_of_ne_zero (Nat.ne_of_gt (Nat.zero_lt_of_lt h))
    rw [List.flatMap_cons, List.append_assoc, parseStringTail_escape, ih (Nat.lt_of_succ_lt_succ h)]
    rfl

/-- An escaped character is not shorter. -/
theorem escape_length (c : UInt8) : 1 ≤ (escape c).length := by
  unfold escape
  split
  · simp
  · split <;> simp

/-- An escaped string is not shorter. -/
theorem escaped_length (s : Bytes) : s.length ≤ (s.flatMap escape).length := by
  induction s with
  | nil => simp
  | cons c s ih =>
    have := escape_length c
    rw [List.flatMap_cons, List.length_append, List.length_cons]
    omega

/-- A string is parsed up to the text behind it. -/
theorem parseString_print (s : Bytes) : parseString (printString s ++ rest) = some (s, rest) := by
  have hlength := escaped_length s
  simp only [printString, List.cons_append, List.append_assoc, List.nil_append, parseString,
    if_true]
  apply parseStringTail_print
  simp only [List.length_cons, List.length_append]
  omega

/-! ### Lists -/

section

variable {α : Type} {element : Bytes → Option (α × Bytes)} {close : UInt8} {text : α → Bytes}
  {xs : List α}

/-- Behind an element comes no digit. -/
theorem noDigit_printTail (hclose : isDigit close = false) (texts : List Bytes) (rest : Bytes) :
    NoDigit (printTail close texts ++ rest) := by
  cases texts with
  | nil => exact noDigit_cons hclose
  | cons t texts => exact noDigit_cons (by decide)

/-- The other elements are parsed if each of them is. -/
theorem parseTail_print (hclose : isDigit close = false) (hcomma : comma ≠ close)
    (h : ∀ x ∈ xs, ∀ rest, NoDigit rest → element (text x ++ rest) = some (x, rest))
    {fuel : ℕ} (hfuel : xs.length < fuel) :
    parseTail element close fuel (printTail close (xs.map text) ++ rest) = some (xs, rest) := by
  induction xs generalizing fuel with
  | nil =>
    obtain ⟨fuel, rfl⟩ := Nat.exists_eq_succ_of_ne_zero (Nat.ne_of_gt hfuel)
    simp [printTail, parseTail]
  | cons x xs ih =>
    obtain ⟨fuel, rfl⟩ := Nat.exists_eq_succ_of_ne_zero (Nat.ne_of_gt (Nat.zero_lt_of_lt hfuel))
    have hx := h x List.mem_cons_self _ (noDigit_printTail hclose (xs.map text) rest)
    have hxs := ih (fun y hy => h y (List.mem_cons_of_mem _ hy)) (Nat.lt_of_succ_lt_succ hfuel)
    have hsplit : printTail close ((x :: xs).map text) ++ rest
        = comma :: (text x ++ (printTail close (xs.map text) ++ rest)) := by
      simp [printTail]
    rw [hsplit, parseTail, if_neg hcomma, if_pos rfl, hx]
    simp only [Option.bind_eq_bind, Option.bind_some, hxs]

/-- A list is parsed if its elements are. -/
theorem parseList_print (hclose : isDigit close = false) (hcomma : comma ≠ close)
    (h : ∀ x ∈ xs, ∀ rest, NoDigit rest → element (text x ++ rest) = some (x, rest))
    (hhead : ∀ x ∈ xs, ∀ rest, (text x ++ rest).head? ≠ some close)
    {fuel : ℕ} (hfuel : xs.length < fuel) :
    parseList element close fuel (printList close (xs.map text) ++ rest) = some (xs, rest) := by
  cases xs with
  | nil => simp [parseList, printList]
  | cons x xs =>
    have hx := h x List.mem_cons_self _ (noDigit_printTail hclose (xs.map text) rest)
    have hxs : parseTail element close fuel (printTail close (xs.map text) ++ rest) =
        some (xs, rest) :=
      parseTail_print hclose hcomma (fun y hy => h y (List.mem_cons_of_mem _ hy))
        (Nat.lt_of_succ_lt hfuel)
    have hne := hhead x List.mem_cons_self (printTail close (xs.map text) ++ rest)
    rw [List.map_cons, printList, List.append_assoc, parseList, if_neg hne, hx]
    simp only [Option.bind_eq_bind, Option.bind_some, hxs]

/-- There are fewer elements than characters, and each is shorter than the text. -/
theorem length_printTail {texts : List Bytes} :
    texts.length < (printTail close texts).length ∧
      ∀ t ∈ texts, t.length < (printTail close texts).length := by
  induction texts with
  | nil => exact ⟨by simp [printTail], fun t ht => absurd ht List.not_mem_nil⟩
  | cons t texts ih =>
    have hlength : (printTail close (t :: texts)).length =
        1 + t.length + (printTail close texts).length := by
      simp only [printTail, List.flatMap_cons, List.length_append, List.length_cons]
      omega
    rw [hlength]
    refine ⟨by simp only [List.length_cons]; omega, fun u hu => ?_⟩
    rcases List.mem_cons.mp hu with rfl | hu
    · omega
    · have := ih.2 u hu
      omega

/-- A list is at least as long as each of its texts, and as their number. -/
theorem length_printList {texts : List Bytes} :
    texts.length ≤ (printList close texts).length ∧
      ∀ t ∈ texts, t.length ≤ (printList close texts).length := by
  cases texts with
  | nil => exact ⟨Nat.zero_le _, fun t ht => absurd ht List.not_mem_nil⟩
  | cons t texts =>
    obtain ⟨hnumber, htexts⟩ := @length_printTail close texts
    rw [printList, List.length_append, List.length_cons]
    refine ⟨by omega, fun u hu => ?_⟩
    rcases List.mem_cons.mp hu with rfl | hu
    · omega
    · have := htexts u hu
      omega

end

/-! ### Values -/

/-- The first characters of the three words. -/
theorem literal_words :
    literal "null" = 110 :: literal "ull" ∧ literal "true" = 116 :: literal "rue" ∧
    literal "false" = 102 :: literal "alse" := by
  decide

/-- A number begins with none of the other characters. -/
theorem number_ne {c d : UInt8} (hc : c = minus ∨ isDigit c = true)
    (hd : d ≠ minus ∧ isDigit d = false) : c ≠ d := by
  rcases hc with rfl | hc
  · exact hd.1.symm
  · exact isDigit_ne hc hd.2

/-- A value does not begin with a closing bracket. -/
theorem print_head (json : Json) (rest : Bytes) : (json.print ++ rest).head? ≠ some 93 := by
  cases json with
  | null => simp [print, literal_words.1]
  | bool b => cases b <;> simp [print, literal_words.2]
  | int n =>
    obtain ⟨c, ds, hds, hc⟩ := printInt_head n
    have hne : c ≠ 93 := number_ne hc (by decide)
    simpa [print, hds] using hne
  | string s => simp [print, printString, quote]
  | array values => simp [print]
  | object members => simp [print]

/-- A member is parsed if its value is. -/
theorem parseMember_print {value : Bytes → Option (Json × Bytes)} {key : Bytes} {json : Json}
    (h : value (json.print ++ rest) = some (json, rest)) :
    parseMember value (printString key ++ colon :: json.print ++ rest) =
      some ((key, json), rest) := by
  rw [List.append_assoc, parseMember, parseString_print]
  simp only [Option.bind_eq_bind, Option.bind_some, List.cons_append, if_true, h]

/-- **A value is read back** in front of a text that does not begin with a digit. -/
theorem parseValue_print {fuel : ℕ} {json : Json} {rest : Bytes} (hfuel : json.print.length < fuel)
    (hrest : NoDigit rest) : parseValue fuel (json.print ++ rest) = some (json, rest) := by
  induction fuel generalizing json rest with
  | zero => exact absurd hfuel (Nat.not_lt_zero _)
  | succ fuel ih =>
    cases json with
    | null =>
      have hword : (literal "ull" ++ rest).dropPrefix? (literal "ull") = some rest :=
        List.dropPrefix?_append_of_beq _ (beq_self_eq_true _)
      simp [print, literal_words.1, parseValue, quote, hword]
    | bool b =>
      have htrue : (literal "rue" ++ rest).dropPrefix? (literal "rue") = some rest :=
        List.dropPrefix?_append_of_beq _ (beq_self_eq_true _)
      have hfalse : (literal "alse" ++ rest).dropPrefix? (literal "alse") = some rest :=
        List.dropPrefix?_append_of_beq _ (beq_self_eq_true _)
      cases b <;> simp [print, literal_words.2, parseValue, quote, htrue, hfalse]
    | int n =>
      have hparse := parseInt_print n hrest
      obtain ⟨c, ds, hds, hc⟩ := printInt_head n
      -- what a number begins with begins no other value
      have hquote : c ≠ quote := number_ne hc (by decide)
      have h91 : c ≠ 91 := number_ne hc (by decide)
      have h123 : c ≠ 123 := number_ne hc (by decide)
      have h110 : c ≠ 110 := number_ne hc (by decide)
      have h116 : c ≠ 116 := number_ne hc (by decide)
      have h102 : c ≠ 102 := number_ne hc (by decide)
      rw [hds, List.cons_append] at hparse
      rw [print, hds, List.cons_append, parseValue, if_neg hquote, if_neg h91, if_neg h123,
        if_neg h110, if_neg h116, if_neg h102, hparse]
      rfl
    | string s =>
      have hparse : parseString (quote :: (s.flatMap escape ++ quote :: rest)) =
          some (s, rest) := by
        simpa [printString] using @parseString_print rest s
      simp [print, printString, parseValue, hparse]
    | array values =>
      rw [print] at hfuel ⊢
      rw [List.length_cons] at hfuel
      obtain ⟨hnumber, htexts⟩ := @length_printList 93 (values.map print)
      -- the fuel lasts for each element, since its text is shorter than the array's
      rw [List.length_map] at hnumber
      have hvalue : ∀ v ∈ values, ∀ rest, NoDigit rest →
          parseValue fuel (v.print ++ rest) = some (v, rest) := by
        intro v hv rest hrest
        have := htexts _ (List.mem_map_of_mem hv)
        exact ih (by omega) hrest
      have hlist : parseList (parseValue fuel) 93 fuel (printList 93 (values.map print) ++ rest)
          = some (values, rest) :=
        parseList_print (by decide) (by decide) hvalue (fun v _ => print_head v) (by omega)
      simp [parseValue, quote, hlist]
    | object members =>
      rw [print] at hfuel ⊢
      rw [List.length_cons] at hfuel
      obtain ⟨hnumber, htexts⟩ := @length_printList 125
        (members.map fun m => printString m.1 ++ colon :: print m.2)
      rw [List.length_map] at hnumber
      -- each member is read with the fuel that is left
      have hmember : ∀ m ∈ members, ∀ rest, NoDigit rest →
          parseMember (parseValue fuel) (printString m.1 ++ colon :: m.2.print ++ rest) =
              some (m, rest) := by
        intro m hm rest hrest
        have hlength := htexts _ (List.mem_map_of_mem hm)
        rw [List.length_append, List.length_cons] at hlength
        exact parseMember_print (ih (by omega) hrest)
      have hlist : parseList (parseMember (parseValue fuel)) 125 fuel
          (printList 125 (members.map fun m => printString m.1 ++ colon :: print m.2) ++ rest)
          = some (members, rest) :=
        parseList_print (by decide) (by decide) hmember
          (fun m _ rest => by simp [printString, quote]) (by omega)
      simp [parseValue, quote, hlist]

/-- **The parser undoes the printer**, also before a line break. -/
theorem parse_print (json : Json) : parse json.print = some json := by
  have hparse : parseValue (json.print.length + 1) (json.print ++ []) = some (json, []) :=
    parseValue_print (Nat.lt_succ_self _) (by simp [NoDigit])
  rw [List.append_nil] at hparse
  rw [parse, hparse]

/-- A line break behind a value does no harm. -/
theorem parse_print_newline (json : Json) : parse (json.print ++ literal "\n") = some json := by
  have hlt : json.print.length < (json.print ++ literal "\n").length + 1 := by
    rw [List.length_append]
    omega
  have hend : NoDigit (literal "\n") := noDigit_cons (by decide)
  have hparse := parseValue_print hlt hend
  rw [parse, hparse]
  rfl

/-! ### The length of a text -/

/-- The text of a string is not shorter than it. -/
theorem length_print_string (s : Bytes) : s.length ≤ (string s).print.length := by
  have hlength := escaped_length s
  rw [print, printString, List.length_cons, List.length_append]
  omega

/-- The text of an object is longer than that of each of its values. -/
theorem length_print_member {members : List (Bytes × Json)} {key : Bytes} {value : Json}
    (h : (key, value) ∈ members) : value.print.length ≤ (object members).print.length := by
  have htext : printString key ++ colon :: value.print ∈
      members.map fun m => printString m.1 ++ colon :: print m.2 :=
    List.mem_map.mpr ⟨_, h, rfl⟩
  have hmember := (@length_printList 125 _).2 _ htext
  rw [List.length_append, List.length_cons] at hmember
  rw [print, List.length_cons]
  omega

end Json
end SculkProtocol
