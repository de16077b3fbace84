import Mathlib
import Nodeflow.Json.Printer
import Nodeflow.Json.Reader
import Nodeflow.Proofs.Number.Grammar

/-!
# Printed documents read back

The reader takes from an indented document exactly the document, and leaves what
follows it.  Only a number has to know what follows, since nothing closes it; in a
document that is always a comma, a line break or the end.  The length of the printed
text bounds the recursion of the reader with room to spare.
-/

namespace Nodeflow.Json

/-! ## Blanks -/

theorem skipBlanks_cons {c : Char} (hc : isBlank c = false) (cs : List Char) :
    skipBlanks (c :: cs) = c :: cs :=
  List.dropWhile_cons_of_neg (by simp [hc])

@[simp] theorem skipBlanks_newline (level : Nat) (cs : List Char) :
    skipBlanks (newline level ++ cs) = skipBlanks cs := by
  refine List.dropWhile_append_of_pos fun c hc => ?_
  rcases List.mem_cons.1 hc with rfl | hc
  · rfl
  · rw [List.eq_of_mem_replicate hc]
    rfl

@[simp] theorem skipBlanks_skipBlanks (cs : List Char) :
    skipBlanks (skipBlanks cs) = skipBlanks cs :=
  List.dropWhile_idempotent _ cs

theorem readValue_skipBlanks (fuel : Nat) (cs : List Char) :
    readValue fuel (skipBlanks cs) = readValue fuel cs := by
  cases fuel with
  | zero => rfl
  | succ fuel => rw [readValue, readValue, skipBlanks_skipBlanks]

theorem readValue_newline (fuel level : Nat) (cs : List Char) :
    readValue fuel (newline level ++ cs) = readValue fuel cs := by
  rw [← readValue_skipBlanks, skipBlanks_newline, readValue_skipBlanks]

theorem readValue_blank (fuel : Nat) (cs : List Char) :
    readValue fuel (' ' :: cs) = readValue fuel cs := by
  rw [← readValue_skipBlanks]
  exact readValue_skipBlanks fuel cs

theorem readItems_skipBlanks (fuel : Nat) (cs : List Char) :
    readItems fuel (skipBlanks cs) = readItems fuel cs := by
  cases fuel with
  | zero => rfl
  | succ fuel => rw [readItems, readItems, readValue_skipBlanks]

theorem readMembers_skipBlanks (fuel : Nat) (cs : List Char) :
    readMembers fuel (skipBlanks cs) = readMembers fuel cs := by
  cases fuel with
  | zero => rfl
  | succ fuel => rw [readMembers, readMembers, skipBlanks_skipBlanks]

/-! ## Strings -/

theorem codeUnit?_hexDigits {n : Nat} (h : n < 0x20) :
    ∃ a b c d, hexDigits 4 n = [a, b, c, d] ∧ codeUnit? a b c d = some n := by
  have hall : ∀ n < 0x20,
      (hexDigits 4 n).length = 4 ∧ hexNumber? (hexDigits 4 n) = some n := by decide
  obtain ⟨hlen, hvalue⟩ := hall n h
  generalize hexDigits 4 n = ds at hlen hvalue ⊢
  match ds, hlen with
  | [a, b, c, d], _ => exact ⟨a, b, c, d, rfl, hvalue⟩

theorem charOfCode?_toNat (c : Char) : charOfCode? c.toNat = some c := by
  have hvalid : c.toNat.isValidChar := c.valid
  rw [charOfCode?, dif_pos hvalid]
  rfl

theorem readChar_escapeChar (c : Char) (rest : List Char) :
    readChar (escapeChar c ++ rest) = some (c, rest) := by
  simp only [escapeChar]
  split
  · subst c; rfl
  split
  · subst c; rfl
  split
  · subst c; rfl
  split
  · subst c; rfl
  split
  · subst c; rfl
  split
  · rename_i h
    rw [← Char.ofNat_toNat c, h]
    rfl
  split
  · rename_i h
    rw [← Char.ofNat_toNat c, h]
    rfl
  split
  · rename_i hsmall
    obtain ⟨w, x, y, z, hdigits, hunit⟩ := codeUnit?_hexDigits hsmall
    rw [hdigits]
    simp only [List.cons_append, List.nil_append, readChar, hunit, Option.bind_some, readUnit]
    rw [if_neg (by omega), charOfCode?_toNat]
    rfl
  · rename_i hquote hback _ _ _ _ _ hlarge
    rw [List.singleton_append, readChar.eq_def]
    split <;> simp_all

theorem escapeChar_ne_quote (c : Char) (rest cs : List Char) :
    escapeChar c ++ rest ≠ '"' :: cs := by
  intro h
  have hhead : (escapeChar c).head? = some '"' := by
    have hne : escapeChar c ≠ [] := by
      simp only [escapeChar]
      repeat' split
      all_goals exact nofun
    rw [← List.head?_append_of_ne_nil _ hne, h]
    rfl
  simp only [escapeChar] at hhead
  repeat' split at hhead
  all_goals simp_all

theorem readString_escaped (s : List Char) {fuel : Nat} (hfuel : s.length < fuel)
    (rest : List Char) :
    readString fuel (s.flatMap escapeChar ++ '"' :: rest) = some (s, rest) := by
  induction s generalizing fuel with
  | nil =>
      obtain ⟨fuel, rfl⟩ := Nat.exists_eq_succ_of_ne_zero (Nat.ne_of_gt hfuel)
      rfl
  | cons c s ih =>
      obtain ⟨fuel, rfl⟩ := Nat.exists_eq_succ_of_ne_zero (Nat.ne_zero_of_lt hfuel)
      rw [List.flatMap_cons, List.append_assoc, readString]
      · simp [readChar_escapeChar, ih (Nat.lt_of_succ_lt_succ hfuel)]
      · exact fun cs => escapeChar_ne_quote c _ cs

theorem length_le_escaped (s : List Char) : s.length ≤ (s.flatMap escapeChar).length := by
  induction s with
  | nil => simp
  | cons c s ih =>
      have hpos : 0 < (escapeChar c).length := by
        simp only [escapeChar]
        repeat' split
        all_goals simp
      simp only [List.flatMap_cons, List.length_append, List.length_cons]
      omega

theorem readString_quoted (s : String) (rest : List Char) :
    readString ((s.toList.flatMap escapeChar ++ '"' :: rest).length + 1)
      (s.toList.flatMap escapeChar ++ '"' :: rest) = some (s.toList, rest) := by
  refine readString_escaped s.toList ?_ rest
  have := length_le_escaped s.toList
  simp only [List.length_append]
  omega

/-! ## Numbers -/

def EndsNumber (rest : List Char) : Prop :=
  ∀ c ∈ rest.head?, c.isDigit = false ∧ c ≠ '.' ∧ c ≠ 'e' ∧ c ≠ 'E'

theorem EndsNumber.endsDigits {rest : List Char} (h : EndsNumber rest) : EndsDigits rest :=
  fun c hc => (h c hc).1

theorem endsNumber_newline (level : Nat) (rest : List Char) :
    EndsNumber (newline level ++ rest) := by
  intro c hc
  cases hc
  decide

theorem endsNumber_comma (rest : List Char) : EndsNumber (',' :: rest) := by
  intro c hc
  cases hc
  decide

theorem readWhole_append {ds rest : List Char} (hds : Numeral.IsWholePart ds)
    (hrest : EndsDigits rest) : readWhole (ds ++ rest) = some (ds, rest) := by
  rcases hds with rfl | ⟨hne, hhead, hdigits⟩
  · rfl
  · obtain ⟨d, tail, rfl⟩ := List.exists_cons_of_ne_nil hne
    have hzero : d ≠ '0' := by simpa using hhead
    rw [readWhole]
    · simp only [spanDigits_append hdigits hrest, List.isEmpty_cons, Bool.false_eq_true, if_false]
    · intro cs hcs
      exact hzero (List.cons.inj hcs).1

theorem readFraction_append {ds rest : List Char} (hds : IsDigits ds) (hrest : EndsDigits rest)
    (hpoint : ∀ c ∈ rest.head?, c ≠ '.') :
    readFraction ((if ds.isEmpty then [] else '.' :: ds) ++ rest) = some (ds, rest) := by
  cases ds with
  | nil =>
      rw [List.isEmpty_nil, if_pos rfl, List.nil_append, readFraction]
      rintro cs rfl
      exact hpoint '.' rfl rfl
  | cons d ds =>
      have hspan : spanDigits (d :: ds ++ rest) = (d :: ds, rest) := spanDigits_append hds hrest
      simp only [List.isEmpty_cons, Bool.false_eq_true, if_false, List.cons_append, readFraction]
      rw [← List.cons_append, hspan]
      rfl

theorem readSign_append {sign ds rest : List Char} (hsign : sign ∈ [[], ['+'], ['-']])
    (hne : ds ≠ []) (hds : IsDigits ds) : readSign (sign ++ (ds ++ rest)) = (sign, ds ++ rest) := by
  obtain ⟨d, tail, rfl⟩ := List.exists_cons_of_ne_nil hne
  have hdigit : d.isDigit = true := hds d List.mem_cons_self
  simp only [List.mem_cons, List.not_mem_nil, or_false] at hsign
  rcases hsign with rfl | rfl | rfl
  · rw [List.nil_append, List.cons_append, readSign]
    · rintro cs hcs
      rw [(List.cons.inj hcs).1] at hdigit
      contradiction
    · rintro cs hcs
      rw [(List.cons.inj hcs).1] at hdigit
      contradiction
  · rfl
  · rfl

theorem readExponent_append {e rest : List Char} (he : Numeral.IsExponentPart e)
    (hrest : EndsNumber rest) :
    readExponent ((if e.isEmpty then [] else 'e' :: e) ++ rest) = some (e, rest) := by
  rcases he with rfl | ⟨sign, ds, hsign, hne, hds, rfl⟩
  · cases rest with
    | nil => rfl
    | cons c cs =>
        obtain ⟨-, -, hlower, hupper⟩ := hrest c rfl
        simp [readExponent, hlower, hupper]
  · have hne' : sign ++ ds ≠ [] := List.append_ne_nil_of_right_ne_nil _ hne
    simp only [List.isEmpty_eq_false_iff.2 hne', Bool.false_eq_true, if_false, List.cons_append,
      List.append_assoc, readExponent, beq_self_eq_true, Bool.true_or, if_true,
      readSign_append hsign hne hds, spanDigits_append hds hrest.endsDigits,
      List.isEmpty_eq_false_iff.2 hne]

theorem endsDigits_exponent {e rest : List Char} (hrest : EndsNumber rest) :
    ∀ c ∈ ((if e.isEmpty then [] else 'e' :: e) ++ rest).head?, c.isDigit = false ∧ c ≠ '.' := by
  intro c hc
  split at hc
  · exact ⟨(hrest c hc).1, (hrest c hc).2.1⟩
  · cases hc
    decide

theorem endsDigits_fraction {ds rest : List Char} (hrest : EndsDigits rest) :
    EndsDigits ((if ds.isEmpty then [] else '.' :: ds) ++ rest) := by
  intro c hc
  split at hc
  · exact hrest c hc
  · cases hc
    decide

theorem readUnsigned_append {n : Numeral} (hn : n.Grammatical) {rest : List Char}
    (hrest : EndsNumber rest) :
    readUnsigned n.negative (n.whole ++ ((if n.fraction.isEmpty then [] else '.' :: n.fraction) ++
      ((if n.exponent.isEmpty then [] else 'e' :: n.exponent) ++ rest))) = some (n, rest) := by
  have hexp := endsDigits_exponent (e := n.exponent) hrest
  have hdigits := fun c hc => (hexp c hc).1
  simp only [readUnsigned, readWhole_append hn.whole (endsDigits_fraction hdigits),
    readFraction_append hn.fraction hdigits fun c hc => (hexp c hc).2,
    readExponent_append hn.exponent hrest, Option.bind_eq_bind, Option.bind_some]

theorem readNumeral_toChars {n : Numeral} (hn : n.Grammatical) {rest : List Char}
    (hrest : EndsNumber rest) : readNumeral (n.toChars ++ rest) = some (n, rest) := by
  have hread := readUnsigned_append hn hrest
  simp only [Numeral.toChars, List.append_assoc]
  cases hneg : n.negative with
  | true =>
      rw [hneg] at hread
      exact hread
  | false =>
      rw [hneg] at hread
      rw [if_neg Bool.false_ne_true, List.nil_append, readNumeral, hread]
      intro cs hcs
      obtain ⟨d, tail, hwhole⟩ := List.exists_cons_of_ne_nil hn.whole.ne_nil
      have hdigit := hn.whole.isDigits d (hwhole ▸ List.mem_cons_self)
      rw [hwhole] at hcs
      rw [(List.cons.inj hcs).1] at hdigit
      contradiction

theorem toChars_head {n : Numeral} (hn : n.Grammatical) :
    ∃ c cs, n.toChars = c :: cs ∧ (c = '-' ∨ c.isDigit = true) := by
  obtain ⟨d, tail, hwhole⟩ := List.exists_cons_of_ne_nil hn.whole.ne_nil
  have hdigit := hn.whole.isDigits d (hwhole ▸ List.mem_cons_self)
  cases hneg : n.negative with
  | true => exact ⟨'-', _, by simp [Numeral.toChars, hneg]; rfl, .inl rfl⟩
  | false => exact ⟨d, _, by simp [Numeral.toChars, hneg, hwhole]; rfl, .inr hdigit⟩

theorem ne_of_numberHead {c d : Char} (hc : c = '-' ∨ c.isDigit = true)
    (hd : d ≠ '-' ∧ d.isDigit = false) : c ≠ d := by
  rintro rfl
  rcases hc with hc | hc
  · exact hd.1 hc
  · rw [hd.2] at hc
    contradiction

theorem isBlank_of_numberHead {c : Char} (hc : c = '-' ∨ c.isDigit = true) : isBlank c = false := by
  simp only [isBlank, Bool.or_eq_false_iff, beq_eq_false_iff_ne]
  exact ⟨⟨⟨ne_of_numberHead hc (by decide), ne_of_numberHead hc (by decide)⟩,
    ne_of_numberHead hc (by decide)⟩, ne_of_numberHead hc (by decide)⟩

/-! ## Steps of the reader -/

section Steps

variable {fuel : Nat} {cs rest tail : List Char}

theorem readValue_items {items : List Json} {c : Char} (hcs : skipBlanks cs = c :: rest)
    (hc : c ≠ ']') (hitems : readItems fuel cs = some (items, tail)) :
    readValue (fuel + 1) ('[' :: cs) = some (.array items, tail) := by
  rw [← readItems_skipBlanks] at hitems
  rw [readValue, skipBlanks_cons rfl]
  simp only
  split
  · rename_i heq
    rw [hcs] at heq
    exact absurd (List.cons.inj heq).1 hc
  · rw [hitems]
    rfl

theorem readValue_members {members : List (String × Json)} (hcs : skipBlanks cs = '"' :: rest)
    (hmembers : readMembers fuel cs = some (members, tail)) :
    readValue (fuel + 1) ('{' :: cs) = some (.object members, tail) := by
  rw [← readMembers_skipBlanks] at hmembers
  rw [readValue, skipBlanks_cons rfl]
  simp only
  split
  · rename_i heq
    rw [hcs] at heq
    exact absurd (List.cons.inj heq).1 (by decide)
  · rw [hmembers]
    rfl

theorem readItems_last {item : Json} (hitem : readValue fuel cs = some (item, rest))
    (hnext : skipBlanks rest = ']' :: tail) : readItems (fuel + 1) cs = some ([item], tail) := by
  simp [readItems, hitem, hnext]

theorem readItems_more {item : Json} {items : List Json} {last : List Char}
    (hitem : readValue fuel cs = some (item, rest)) (hnext : skipBlanks rest = ',' :: tail)
    (hitems : readItems fuel tail = some (items, last)) :
    readItems (fuel + 1) cs = some (item :: items, last) := by
  simp [readItems, hitem, hnext, hitems]

theorem readMembers_last {key : String} {value : Json} {after : List Char}
    (hkey : skipBlanks cs = quote key ++ ':' :: rest)
    (hvalue : readValue fuel rest = some (value, after))
    (hnext : skipBlanks after = '}' :: tail) :
    readMembers (fuel + 1) cs = some ([(key, value)], tail) := by
  rw [readMembers, hkey, quote, List.cons_append, List.cons_append, List.append_assoc]
  simp only [List.singleton_append, readString_quoted, Option.bind_eq_bind, Option.bind_some]
  rw [skipBlanks_cons rfl]
  simp [hvalue, hnext]

theorem readMembers_more {key : String} {value : Json} {after last : List Char}
    {members : List (String × Json)}
    (hkey : skipBlanks cs = quote key ++ ':' :: rest)
    (hvalue : readValue fuel rest = some (value, after))
    (hnext : skipBlanks after = ',' :: tail)
    (hmembers : readMembers fuel tail = some (members, last)) :
    readMembers (fuel + 1) cs = some ((key, value) :: members, last) := by
  rw [readMembers, hkey, quote, List.cons_append, List.cons_append, List.append_assoc]
  simp only [List.singleton_append, readString_quoted, Option.bind_eq_bind, Option.bind_some]
  rw [skipBlanks_cons rfl]
  simp [hvalue, hnext, hmembers]

end Steps

/-! ## Documents -/

mutual

def Grammatical : Json → Prop
  | .number n => n.Grammatical
  | .array items => GrammaticalItems items
  | .object members => GrammaticalMembers members
  | _ => True

def GrammaticalItems : List Json → Prop
  | [] => True
  | item :: rest => item.Grammatical ∧ GrammaticalItems rest

def GrammaticalMembers : List (String × Json) → Prop
  | [] => True
  | (_, value) :: rest => value.Grammatical ∧ GrammaticalMembers rest

end

theorem grammaticalItems_iff {items : List Json} :
    GrammaticalItems items ↔ ∀ item ∈ items, item.Grammatical := by
  induction items with
  | nil => simp [GrammaticalItems]
  | cons item rest ih => simp [GrammaticalItems, ih]

theorem grammaticalMembers_iff {members : List (String × Json)} :
    GrammaticalMembers members ↔ ∀ m ∈ members, m.2.Grammatical := by
  induction members with
  | nil => simp [GrammaticalMembers]
  | cons m rest ih => simp [GrammaticalMembers, ih]

theorem prettyChars_head (level : Nat) {j : Json} (hj : j.Grammatical) :
    ∃ c cs, j.prettyChars level = c :: cs ∧ isBlank c = false ∧ c ≠ ']' := by
  cases j with
  | number n =>
      obtain ⟨c, cs, hcs, hc⟩ := toChars_head hj
      exact ⟨c, cs, by rw [prettyChars, hcs], isBlank_of_numberHead hc,
        ne_of_numberHead hc (by decide)⟩
  | null => exact ⟨'n', _, rfl, by decide⟩
  | bool b => cases b <;> exact ⟨_, _, rfl, by decide⟩
  | string s => exact ⟨'"', _, rfl, by decide⟩
  | array items => cases items <;> exact ⟨'[', _, rfl, by decide⟩
  | object members => cases members <;> exact ⟨'{', _, rfl, by decide⟩

theorem readValue_number {n : Numeral} (hn : n.Grammatical) (fuel : Nat) {rest : List Char}
    (hrest : EndsNumber rest) :
    readValue (fuel + 1) (n.toChars ++ rest) = some (.number n, rest) := by
  have hread := readNumeral_toChars hn hrest
  obtain ⟨c, cs, hcs, hc⟩ := toChars_head hn
  rw [hcs, List.cons_append] at hread ⊢
  rw [readValue, skipBlanks_cons (isBlank_of_numberHead hc)]
  split
  case h_7 => rw [hread]; rfl
  all_goals
    rename_i heq
    exact absurd (List.cons.inj heq).1 (ne_of_numberHead hc (by decide))

theorem skipBlanks_prettyItems (level : Nat) {item : Json} (hitem : item.Grammatical)
    (items : List Json) (rest : List Char) :
    ∃ c cs, skipBlanks (prettyItems level (item :: items) ++ rest) = c :: cs ∧ c ≠ ']' := by
  obtain ⟨c, cs, hcs, hblank, hne⟩ := prettyChars_head level hitem
  cases items with
  | nil =>
      refine ⟨c, cs ++ rest, ?_, hne⟩
      rw [prettyItems, List.append_assoc, skipBlanks_newline, hcs]
      exact skipBlanks_cons hblank _
  | cons next items =>
      refine ⟨c, cs ++ ',' :: prettyItems level (next :: items) ++ rest, ?_, hne⟩
      rw [prettyItems, List.append_assoc, List.append_assoc, skipBlanks_newline, hcs]
      simpa using skipBlanks_cons hblank _

theorem skipBlanks_prettyMembers (level : Nat) (member : String × Json)
    (members : List (String × Json)) (rest : List Char) :
    ∃ cs, skipBlanks (prettyMembers level (member :: members) ++ rest) = '"' :: cs := by
  cases members with
  | nil =>
      rw [prettyMembers, List.append_assoc, List.append_assoc, skipBlanks_newline]
      exact ⟨_, skipBlanks_cons rfl _⟩
  | cons next members =>
      rw [prettyMembers, List.append_assoc, List.append_assoc, List.append_assoc,
        skipBlanks_newline]
      exact ⟨_, skipBlanks_cons rfl _⟩

mutual

theorem readValue_pretty : ∀ j : Json, j.Grammatical → ∀ (level fuel : Nat) (rest : List Char),
    2 * (j.prettyChars level).length ≤ fuel + 1 → EndsNumber rest →
    readValue (fuel + 1) (j.prettyChars level ++ rest) = some (j, rest)
  | .null, _, _, _, _, _, _ => rfl
  | .bool true, _, _, _, _, _, _ => rfl
  | .bool false, _, _, _, _, _, _ => rfl
  | .number n, hj, level, fuel, rest, _, hrest => by
      rw [prettyChars]
      exact readValue_number hj fuel hrest
  | .string s, _, level, fuel, rest, _, _ => by
      rw [prettyChars, quote, List.cons_append, List.cons_append, List.append_assoc,
        readValue, skipBlanks_cons rfl]
      simp only [List.singleton_append, readString_quoted]
      simp
  | .array [], _, _, _, _, _, _ => rfl
  | .array (item :: items), hj, level, fuel, rest, hfuel, _ => by
      have hlen : 2 * (prettyItems (level + 1) (item :: items)).length + 1 ≤ fuel := by
        simp only [prettyChars, List.length_cons, List.length_append] at hfuel
        omega
      have hitems := readItems_pretty (item :: items) nofun hj (level + 1) level fuel rest hlen
      obtain ⟨c, cs, hcs, hne⟩ := skipBlanks_prettyItems (level + 1) hj.1 items
        (newline level ++ ']' :: rest)
      simpa [prettyChars] using readValue_items hcs hne hitems
  | .object [], _, _, _, _, _, _ => rfl
  | .object (member :: members), hj, level, fuel, rest, hfuel, _ => by
      have hlen : 2 * (prettyMembers (level + 1) (member :: members)).length + 1 ≤ fuel := by
        simp only [prettyChars, List.length_cons, List.length_append] at hfuel
        omega
      have hmembers :=
        readMembers_pretty (member :: members) nofun hj (level + 1) level fuel rest hlen
      obtain ⟨cs, hcs⟩ := skipBlanks_prettyMembers (level + 1) member members
        (newline level ++ '}' :: rest)
      simpa [prettyChars] using readValue_members hcs hmembers

theorem readItems_pretty : ∀ items : List Json, items ≠ [] → GrammaticalItems items →
    ∀ (level outer fuel : Nat) (rest : List Char),
    2 * (prettyItems level items).length + 1 ≤ fuel →
    readItems fuel (prettyItems level items ++ (newline outer ++ ']' :: rest)) = some (items, rest)
  | [item], _, hitems, level, outer, fuel, rest, hfuel => by
      simp only [prettyItems, List.length_append, newline, List.length_cons] at hfuel
      obtain ⟨fuel, rfl⟩ := Nat.exists_eq_add_of_le' (show 2 ≤ fuel by omega)
      have hitem := readValue_pretty item hitems.1 level fuel (newline outer ++ ']' :: rest)
        (by omega) (endsNumber_newline outer _)
      rw [← readValue_newline _ level] at hitem
      rw [prettyItems, List.append_assoc]
      exact readItems_last hitem (skipBlanks_newline outer _)
  | item :: next :: items, _, hitems, level, outer, fuel, rest, hfuel => by
      simp only [prettyItems, List.length_append, newline, List.length_cons] at hfuel
      obtain ⟨fuel, rfl⟩ := Nat.exists_eq_add_of_le' (show 2 ≤ fuel by omega)
      have hitem := readValue_pretty item hitems.1 level fuel
        (',' :: (prettyItems level (next :: items) ++ (newline outer ++ ']' :: rest)))
        (by omega) (endsNumber_comma _)
      have hrest := readItems_pretty (next :: items) nofun hitems.2 level outer (fuel + 1) rest
        (by omega)
      rw [← readValue_newline _ level] at hitem
      rw [prettyItems, List.append_assoc, List.append_assoc, List.cons_append]
      exact readItems_more hitem (skipBlanks_cons rfl _) hrest

theorem readMembers_pretty : ∀ members : List (String × Json), members ≠ [] →
    GrammaticalMembers members → ∀ (level outer fuel : Nat) (rest : List Char),
    2 * (prettyMembers level members).length + 1 ≤ fuel →
    readMembers fuel (prettyMembers level members ++ (newline outer ++ '}' :: rest)) =
      some (members, rest)
  | [(key, value)], _, hmembers, level, outer, fuel, rest, hfuel => by
      simp only [prettyMembers, List.length_append, newline, List.length_cons] at hfuel
      obtain ⟨fuel, rfl⟩ := Nat.exists_eq_add_of_le' (show 2 ≤ fuel by omega)
      have hvalue := readValue_pretty value hmembers.1 level fuel (newline outer ++ '}' :: rest)
        (by omega) (endsNumber_newline outer _)
      rw [← readValue_blank] at hvalue
      rw [prettyMembers, List.append_assoc, List.append_assoc]
      exact readMembers_last (skipBlanks_newline level _) hvalue (skipBlanks_newline outer _)
  | (key, value) :: next :: members, _, hmembers, level, outer, fuel, rest, hfuel => by
      simp only [prettyMembers, List.length_append, newline, List.length_cons] at hfuel
      obtain ⟨fuel, rfl⟩ := Nat.exists_eq_add_of_le' (show 2 ≤ fuel by omega)
      have hvalue := readValue_pretty value hmembers.1 level fuel
        (',' :: (prettyMembers level (next :: members) ++ (newline outer ++ '}' :: rest)))
        (by omega) (endsNumber_comma _)
      have hrest := readMembers_pretty (next :: members) nofun hmembers.2 level outer (fuel + 1)
        rest (by omega)
      rw [← readValue_blank] at hvalue
      rw [prettyMembers, List.append_assoc, List.append_assoc, List.append_assoc]
      exact readMembers_more (skipBlanks_newline level _) hvalue (skipBlanks_cons rfl _) hrest

end

/-- The indented text of a document holds that document. -/
theorem parse?_pretty {j : Json} (hj : j.Grammatical) : parse? j.pretty = some j := by
  have hread := readValue_pretty j hj 0 (2 * (j.prettyChars 0).length + 1) [] (by omega) nofun
  rw [List.append_nil] at hread
  simp only [parse?, pretty, String.toList_ofList, hread, Option.bind_eq_bind, Option.bind_some]
  rfl

end Nodeflow.Json
