import StageGate.Json.Reader
import StageGate.Json.Writer

/-!
# What is written can be read

The reader finds in every text of the writer the value that was written. Numbers and strings come
first, then values, where the fuel that the reader gives itself is enough because a value's text is
at least half as long as the recursion is deep. Main statement: `parse?_render`, for every value
that holds nothing unreadable and no number that is kept as text.
-/

namespace StageGate.Json

open Text.Digits (hexValue)

-- ---------------------------------------------------------------------------
-- Numbers
-- ---------------------------------------------------------------------------

def EndsNumber (rest : List Char) : Prop :=
  ∀ c ∈ rest.head?, c.isDigit = false ∧ c ≠ '.' ∧ c ≠ 'e' ∧ c ≠ 'E'

theorem endsNumber_nil : EndsNumber [] := fun _ h => by cases h

theorem endsNumber_cons {c : Char} (h : c = ',' ∨ c = ']' ∨ c = '}') (rest : List Char) :
    EndsNumber (c :: rest) := by
  intro d hd
  cases hd
  rcases h with rfl | rfl | rfl <;> decide

theorem toDigits_cons (n : Nat) : ∃ c ds, Nat.toDigits 10 n = c :: ds ∧ c.isDigit = true := by
  obtain ⟨c, ds, hds⟩ : ∃ c ds, Nat.toDigits 10 n = c :: ds :=
    List.exists_cons_of_ne_nil Nat.toDigits_ne_nil
  have hc : c ∈ Nat.toDigits 10 n := hds ▸ List.mem_cons_self
  exact ⟨c, ds, hds, Nat.isDigit_of_mem_toDigits (by decide) (by decide) hc⟩

theorem toDigits_of_pos {n : Nat} (h : 0 < n) : ∃ c ds, Nat.toDigits 10 n = c :: ds ∧ c ≠ '0' := by
  induction n using Nat.strongRecOn with
  | ind n ih =>
    rw [Nat.toDigits_eq_if (by decide)]
    split
    · next hn =>
      have hfirst : ∀ d < 10, 0 < d → Nat.digitChar d ≠ '0' := by decide
      exact ⟨_, [], rfl, hfirst n hn h⟩
    · obtain ⟨c, ds, hds, hc⟩ := ih (n / 10) (by omega) (by omega)
      exact ⟨c, ds ++ [Nat.digitChar (n % 10)], by rw [hds, List.cons_append], hc⟩

variable {rest : List Char}

theorem readDigits_append {ds : List Char} (hne : ds ≠ []) (hd : ∀ c ∈ ds, c.isDigit = true)
    (h : EndsNumber rest) : readDigits (ds ++ rest) = some (ds, rest) := by
  have htake : rest.takeWhile Char.isDigit = [] := by
    cases rest with
    | nil => rfl
    | cons c rest => simp [(h c rfl).1]
  have hdrop : rest.dropWhile Char.isDigit = rest := by
    cases rest with
    | nil => rfl
    | cons c rest => simp [(h c rfl).1]
  unfold readDigits
  rw [List.takeWhile_append_of_pos hd, List.dropWhile_append_of_pos hd, htake, hdrop,
    List.append_nil]
  simp [hne]

theorem readWhole_toDigits (n : Nat) (h : EndsNumber rest) :
    readWhole (Nat.toDigits 10 n ++ rest) = some (Nat.toDigits 10 n, rest) := by
  have hread : readDigits (Nat.toDigits 10 n ++ rest) = some (Nat.toDigits 10 n, rest) :=
    readDigits_append Nat.toDigits_ne_nil
      (fun c hc => Nat.isDigit_of_mem_toDigits (by decide) (by decide) hc) h
  unfold readWhole
  rw [hread]
  rcases Nat.eq_zero_or_pos n with rfl | hn
  · rfl
  · obtain ⟨c, ds, hds, hc⟩ := toDigits_of_pos hn
    rw [hds]
    split
    · next hzero =>
      cases hzero
      exact absurd rfl hc
    · rfl

theorem readUnsigned_toDigits (n : Nat) (h : EndsNumber rest) :
    readUnsigned (Nat.toDigits 10 n ++ rest) = some ((Nat.toDigits 10 n, []), rest) := by
  have hfraction : readFraction rest = some ([], rest) := by
    unfold readFraction
    split
    · exact absurd rfl (h '.' rfl).2.1
    · rfl
  have hexponent : readExponent rest = some ([], rest) := by
    cases rest with
    | nil => rfl
    | cons c rest =>
      obtain ⟨-, -, he, hE⟩ := h c rfl
      unfold readExponent
      simp only [he, hE, or_self, if_false]
  simp [readUnsigned, readWhole_toDigits n h, hfraction, hexponent]

theorem readNumber_write (n : Int) (h : EndsNumber rest) :
    readNumber ((Number.integer n).write ++ rest) = some (.integer n, rest) := by
  cases n with
  | ofNat n =>
    obtain ⟨c, ds, hds, hc⟩ := toDigits_cons n
    have hread := readUnsigned_toDigits n h
    simp only [Number.write]
    unfold readNumber
    rw [hds] at hread ⊢
    split
    · next hsign =>
      cases hsign
      cases hc
    · rw [hread, ← hds]
      simp [Nat.ofDigitChars_ten_toDigits]
  | negSucc n =>
    obtain ⟨c, ds, hds, hc⟩ := toDigits_of_pos (Nat.succ_pos n)
    have hzero : Nat.toDigits 10 (n + 1) ≠ ['0'] := by
      rw [hds]
      exact fun h => hc (List.cons.inj h).1
    simp only [Number.write, List.cons_append, readNumber, readUnsigned_toDigits (n + 1) h]
    simp [hzero, Nat.ofDigitChars_ten_toDigits, Int.negSucc_eq]

-- ---------------------------------------------------------------------------
-- Strings
-- ---------------------------------------------------------------------------

/-- An escape at the front names a code unit, if it is one by its number. -/
def Numbered (s : List Char) : Prop :=
  ∀ a b c d t, s = '\\' :: 'u' :: a :: b :: c :: d :: t → (codeUnit a b c d).isSome

theorem codeUnit_control : ∀ n < 32, codeUnit '0' '0' (hexDigit (n / 16)) (hexDigit (n % 16)) =
    some n := by
  decide

theorem isHalf_of_control {n : Nat} (h : n < 32) : isHighHalf n = false ∧ isLowHalf n = false := by
  simp only [isHighHalf, isLowHalf, Bool.and_eq_false_iff, decide_eq_false_iff_not]
  omega

theorem escape_cases (c : Char) :
    (∃ e, e ≠ 'u' ∧ unescape e = some c ∧ escape c = ['\\', e]) ∨
    (c.toNat < 32 ∧
      escape c = ['\\', 'u', '0', '0', hexDigit (c.toNat / 16), hexDigit (c.toNat % 16)]) ∨
    (c ≠ '"' ∧ c ≠ '\\' ∧ ¬ c.toNat < 32 ∧ escape c = [c]) := by
  unfold escape
  split
  · next h => exact .inl ⟨'"', by decide, by rw [h]; rfl, rfl⟩
  next hquote =>
    split
    · next h => exact .inl ⟨'\\', by decide, by rw [h]; rfl, rfl⟩
    next hslash =>
      split
      · next h => exact .inl ⟨'n', by decide, h ▸ rfl, rfl⟩
      split
      · next h => exact .inl ⟨'r', by decide, h ▸ rfl, rfl⟩
      split
      · next h => exact .inl ⟨'t', by decide, h ▸ rfl, rfl⟩
      split
      · next h => exact .inl ⟨'b', by decide, h ▸ rfl, rfl⟩
      split
      · next h => exact .inl ⟨'f', by decide, h ▸ rfl, rfl⟩
      split
      · next h => exact .inr (.inl ⟨h, rfl⟩)
      · next h => exact .inr (.inr ⟨hquote, hslash, h, rfl⟩)

theorem numbered_escape (c : Char) (s : List Char) : Numbered (escape c ++ s) := by
  intro a b d e t h
  rcases escape_cases c with ⟨letter, hletter, -, hc⟩ | ⟨hc, hnumber⟩ | ⟨-, hslash, -, hc⟩
  · rw [hc] at h
    exact absurd (List.cons.inj (List.cons.inj h).2).1 hletter
  · rw [hnumber] at h
    cases h
    rw [codeUnit_control c.toNat hc]
    rfl
  · rw [hc] at h
    exact absurd (List.cons.inj h).1 hslash

theorem readChars_number {n : Nat} (hn : n < 32) (seen : List Char) {s : List Char}
    (h : Numbered s) : readChars (some seen)
      ('\\' :: 'u' :: '0' :: '0' :: hexDigit (n / 16) :: hexDigit (n % 16) :: s) =
        readChars (some (Char.ofNat n :: seen)) s := by
  obtain ⟨hhigh, hlow⟩ := isHalf_of_control hn
  by_cases hs : ∃ a b c d t, s = '\\' :: 'u' :: a :: b :: c :: d :: t
  · obtain ⟨a, b, c, d, t, rfl⟩ := hs
    obtain ⟨m, hm⟩ := Option.isSome_iff_exists.mp (h a b c d t rfl)
    rw [readChars, codeUnit_control n hn, hm]
    simp [hhigh, hlow]
  · rw [readChars.eq_4 _ _ _ _ _ _ fun a b c d t ht => hs ⟨a, b, c, d, t, ht⟩,
      codeUnit_control n hn]
    simp [hhigh, hlow]

theorem readChars_escape (c : Char) (seen : List Char) {s : List Char} (h : Numbered s) :
    readChars (some seen) (escape c ++ s) = readChars (some (c :: seen)) s := by
  rcases escape_cases c with ⟨letter, hletter, hunescape, hc⟩ | ⟨hc, hnumber⟩ |
    ⟨hquote, hslash, hplain, hc⟩
  · rw [hc]
    simp [readChars, hletter, hunescape]
  · have hread := readChars_number hc seen h
    rw [Char.ofNat_toNat] at hread
    rw [hnumber]
    exact hread
  · rw [hc]
    simp [readChars, hslash, hplain]

theorem readChars_escapes (cs seen rest : List Char) :
    readChars (some seen) (cs.flatMap escape ++ '"' :: rest) =
      some (some (seen.reverse ++ cs), rest) := by
  induction cs generalizing seen with
  | nil => simp [readChars]
  | cons c cs ih =>
    have hnumbered : Numbered (cs.flatMap escape ++ '"' :: rest) := by
      cases cs with
      | nil =>
        intro a b d e t h
        cases h
      | cons c cs =>
        rw [List.flatMap_cons, List.append_assoc]
        exact numbered_escape c _
    rw [List.flatMap_cons, List.append_assoc, readChars_escape c seen hnumbered, ih]
    simp

theorem readString_write (s : String) (rest : List Char) :
    readString (s.toList.flatMap escape ++ '"' :: rest) = some (some s, rest) := by
  simp [readString, readChars_escapes]

-- ---------------------------------------------------------------------------
-- Values
-- ---------------------------------------------------------------------------

/-- The reader tells such a value from all others: nothing in it was unreadable, and its numbers
are whole. -/
inductive Readable : Json → Prop where
  | null : Readable .null
  | bool (value : Bool) : Readable (.bool value)
  | integer (value : Int) : Readable (.number (.integer value))
  | string (text : String) : Readable (.string text)
  | array (items : List Json) (h : ∀ j ∈ items, Readable j) : Readable (.array items)
  | object (members : List (String × Json)) (h : ∀ m ∈ members, Readable m.2) :
      Readable (.object members)

theorem skipBlanks_cons {c : Char} (h : isBlank c = false) (t : List Char) :
    skipBlanks (c :: t) = c :: t := by
  simp [skipBlanks, h]

def Opens (s : List Char) : Prop := ∃ c t, s = c :: t ∧ isBlank c = false ∧ c ≠ ']'

theorem Opens.append {s : List Char} (h : Opens s) (t : List Char) : Opens (s ++ t) := by
  obtain ⟨c, u, rfl, hc⟩ := h
  exact ⟨c, u ++ t, rfl, hc⟩

theorem Opens.skipBlanks {s : List Char} (h : Opens s) : skipBlanks s = s := by
  obtain ⟨c, t, rfl, hc, -⟩ := h
  exact skipBlanks_cons hc t

theorem opens_of_number {c : Char} (h : c.isDigit = true ∨ c = '-') (t : List Char) :
    Opens (c :: t) := by
  refine ⟨c, t, rfl, ?_, ?_⟩
  · cases hc : isBlank c with
    | false => rfl
    | true =>
      simp only [isBlank, Bool.or_eq_true, beq_iff_eq] at hc
      rcases hc with ((rfl | rfl) | rfl) | rfl <;> exact absurd h (by decide)
  · rintro rfl
    exact absurd h (by decide)

theorem write_integer (n : Int) : ∃ c t, (Number.integer n).write = c :: t ∧
    (c.isDigit = true ∨ c = '-') := by
  cases n with
  | ofNat n =>
    obtain ⟨c, ds, hds, hc⟩ := toDigits_cons n
    exact ⟨c, ds, hds, .inl hc⟩
  | negSucc n => exact ⟨'-', _, rfl, .inr rfl⟩

theorem Readable.opens {j : Json} (h : Readable j) : Opens j.write := by
  cases h with
  | null => exact ⟨'n', _, rfl, by decide, by decide⟩
  | bool value => cases value <;> exact ⟨_, _, rfl, by decide, by decide⟩
  | integer value =>
    obtain ⟨c, t, ht, hc⟩ := write_integer value
    rw [write, ht]
    exact opens_of_number hc t
  | string text => exact ⟨'"', _, rfl, by decide, by decide⟩
  | array items h => exact ⟨'[', _, rfl, by decide, by decide⟩
  | object members h => exact ⟨'{', _, rfl, by decide, by decide⟩

theorem readValue_number {c : Char} (hc : c.isDigit = true ∨ c = '-') (fuel : Nat) (s : List Char) :
    readValue (fuel + 1) (c :: s) = (readNumber (c :: s)).map fun r => (.number r.1, r.2) := by
  rw [readValue, (opens_of_number hc s).skipBlanks]
  -- Every other kind of value is told by its first character.
  split
  case h_7 => rfl
  all_goals
    next h =>
      cases h
      exact absurd hc (by decide)

theorem readValue_items {s : List Char} (h : Opens s) (fuel : Nat) :
    readValue (fuel + 1) ('[' :: s) = (readItems fuel s).map fun r => (.array r.1, r.2) := by
  obtain ⟨c, t, rfl, hblank, hc⟩ := h
  simp only [readValue, skipBlanks_cons (by decide : isBlank '[' = false), skipBlanks_cons hblank]
  split
  · next hclose =>
    cases hclose
    exact absurd rfl hc
  · rfl

def Reads (j : Json) : Prop := ∀ fuel rest, 2 * j.write.length ≤ fuel → EndsNumber rest →
  readValue fuel (j.write ++ rest) = some (j, rest)

/-- A value's text is not empty, so its reader has fuel to start with. -/
theorem Opens.reads {j : Json} (hopens : Opens j.write)
    (h : ∀ fuel rest, 2 * j.write.length ≤ fuel + 1 → EndsNumber rest →
      readValue (fuel + 1) (j.write ++ rest) = some (j, rest)) : Reads j := by
  intro fuel rest hfuel hrest
  have hlength : 0 < j.write.length := by
    obtain ⟨c, t, ht, -⟩ := hopens
    simp [ht]
  obtain ⟨fuel, rfl⟩ : ∃ n, fuel = n + 1 := ⟨fuel - 1, by omega⟩
  exact h fuel rest hfuel hrest

theorem readItems_write {items : List Json} (hne : items ≠ []) (h : ∀ j ∈ items, Reads j)
    (fuel : Nat) (hfuel : 2 * (separate (writeItems items)).length + 1 ≤ fuel) (rest : List Char) :
    readItems fuel (separate (writeItems items) ++ ']' :: rest) = some (items, rest) := by
  induction items generalizing fuel with
  | nil => exact absurd rfl hne
  | cons j items ih =>
    obtain ⟨fuel, rfl⟩ : ∃ n, fuel = n + 1 := ⟨fuel - 1, by omega⟩
    have hfirst := h j List.mem_cons_self fuel
    cases items with
    | nil =>
      have hread := hfirst (']' :: rest) (by simpa [writeItems, separate] using hfuel)
        (endsNumber_cons (.inr (.inl rfl)) rest)
      simp only [writeItems, separate, readItems, hread]
      rfl
    | cons k items =>
      have htext : separate (writeItems (j :: k :: items)) =
          j.write ++ ',' :: separate (writeItems (k :: items)) := rfl
      have hlater := ih (by simp) fun i hi => h i (List.mem_cons_of_mem _ hi)
      rw [htext] at hfuel ⊢
      generalize separate (writeItems (k :: items)) = later at hfuel hlater ⊢
      rw [List.length_append, List.length_cons] at hfuel
      have hread := hfirst (',' :: (later ++ ']' :: rest)) (by omega)
        (endsNumber_cons (.inl rfl) _)
      rw [List.append_assoc, List.cons_append, readItems, hread]
      show (readItems fuel (later ++ ']' :: rest)).map _ = _
      rw [hlater fuel (by omega)]
      rfl

theorem member_append (key : String) (value : Json) (rest : List Char) :
    writeString key ++ ':' :: value.write ++ rest =
      '"' :: (key.toList.flatMap escape ++ '"' :: ':' :: (value.write ++ rest)) := by
  simp [writeString]

section
variable {value : Json} (h : Reads value) (key : String) {fuel : Nat}
  (hfuel : 2 * value.write.length ≤ fuel)
include h hfuel

theorem readMembers_more (later : List Char) :
    readMembers (fuel + 1) (writeString key ++ ':' :: value.write ++ ',' :: later) =
      (readMembers fuel later).map fun r => (addMember (some key) value r.1, r.2) := by
  have hread := h fuel (',' :: later) hfuel (endsNumber_cons (.inl rfl) later)
  simp only [member_append, readMembers, readString_write, hread,
    skipBlanks_cons (by decide : isBlank '"' = false),
    skipBlanks_cons (by decide : isBlank ':' = false),
    skipBlanks_cons (by decide : isBlank ',' = false)]

theorem readMembers_last (rest : List Char) :
    readMembers (fuel + 1) (writeString key ++ ':' :: value.write ++ '}' :: rest) =
      some (some [(key, value)], rest) := by
  have hread := h fuel ('}' :: rest) hfuel (endsNumber_cons (.inr (.inr rfl)) rest)
  simp only [member_append, readMembers, readString_write, hread,
    skipBlanks_cons (by decide : isBlank '"' = false),
    skipBlanks_cons (by decide : isBlank ':' = false),
    skipBlanks_cons (by decide : isBlank '}' = false)]
  rfl

end

theorem readMembers_write {members : List (String × Json)} (hne : members ≠ [])
    (h : ∀ m ∈ members, Reads m.2) (fuel : Nat)
    (hfuel : 2 * (separate (writeMembers members)).length + 1 ≤ fuel) (rest : List Char) :
    readMembers fuel (separate (writeMembers members) ++ '}' :: rest) =
      some (some members, rest) := by
  induction members generalizing fuel with
  | nil => exact absurd rfl hne
  | cons m members ih =>
    obtain ⟨key, value⟩ := m
    obtain ⟨fuel, rfl⟩ : ∃ n, fuel = n + 1 := ⟨fuel - 1, by omega⟩
    have hvalue : Reads value := h (key, value) List.mem_cons_self
    cases members with
    | nil =>
      have htext : separate (writeMembers [(key, value)]) = writeString key ++ ':' :: value.write :=
        rfl
      rw [htext, List.length_append, List.length_cons] at hfuel
      rw [htext, readMembers_last hvalue key (by omega) rest]
    | cons n members =>
      have htext : separate (writeMembers ((key, value) :: n :: members)) =
          writeString key ++ ':' :: value.write ++ ',' :: separate (writeMembers (n :: members)) :=
        rfl
      have hlater := ih (by simp) fun i hi => h i (List.mem_cons_of_mem _ hi)
      rw [htext] at hfuel ⊢
      generalize separate (writeMembers (n :: members)) = later at hfuel hlater ⊢
      simp only [List.length_append, List.length_cons] at hfuel
      rw [List.append_assoc _ (',' :: later), List.cons_append,
        readMembers_more hvalue key (by omega), hlater fuel (by omega)]
      rfl

theorem reads_string (text : String) : Reads (.string text) := by
  refine (Readable.string text).opens.reads fun fuel rest _ _ => ?_
  have htext : (Json.string text).write ++ rest =
      '"' :: (text.toList.flatMap escape ++ '"' :: rest) := by
    simp [write, writeString]
  rw [htext]
  show (readString _).map _ = _
  rw [readString_write]
  rfl

theorem reads_integer (n : Int) : Reads (.number (.integer n)) := by
  refine (Readable.integer n).opens.reads fun fuel rest _ hrest => ?_
  obtain ⟨c, t, ht, hc⟩ := write_integer n
  have hnumber := readNumber_write n hrest
  rw [ht] at hnumber
  rw [write, ht, List.cons_append, readValue_number hc]
  rw [List.cons_append] at hnumber
  rw [hnumber]
  rfl

theorem reads_array {items : List Json} (h : ∀ j ∈ items, Readable j) (ih : ∀ j ∈ items, Reads j) :
    Reads (.array items) := by
  refine (Readable.array items h).opens.reads fun fuel rest hfuel _ => ?_
  have htext : (Json.array items).write ++ rest =
      '[' :: (separate (writeItems items) ++ ']' :: rest) := by
    simp [write]
  rw [write, List.length_append, List.length_cons, List.length_singleton] at hfuel
  rw [htext]
  cases items with
  | nil => rfl
  | cons j items =>
    have hopens : Opens (separate (writeItems (j :: items)) ++ ']' :: rest) := by
      have hfirst := (h j List.mem_cons_self).opens
      cases items with
      | nil => exact hfirst.append _
      | cons k items => exact (hfirst.append _).append _
    rw [readValue_items hopens, readItems_write (by simp) ih fuel (by omega) rest]
    rfl

theorem reads_object {members : List (String × Json)} (h : ∀ m ∈ members, Readable m.2)
    (ih : ∀ m ∈ members, Reads m.2) : Reads (.object members) := by
  refine (Readable.object members h).opens.reads fun fuel rest hfuel _ => ?_
  have htext : (Json.object members).write ++ rest =
      '{' :: (separate (writeMembers members) ++ '}' :: rest) := by
    simp [write]
  rw [write, List.length_append, List.length_cons, List.length_singleton] at hfuel
  rw [htext]
  cases members with
  | nil => rfl
  | cons m members =>
    have hread := readMembers_write (by simp) ih fuel (by omega) rest
    obtain ⟨t, ht⟩ : ∃ t, separate (writeMembers (m :: members)) ++ '}' :: rest = '"' :: t := by
      cases members <;> exact ⟨_, rfl⟩
    rw [ht] at hread ⊢
    show (readMembers fuel ('"' :: t)).map _ = _
    rw [hread]
    rfl

theorem Readable.reads {j : Json} (h : Readable j) : Reads j := by
  induction h with
  | null => exact Readable.null.opens.reads fun _ _ _ _ => rfl
  | bool value =>
    refine (Readable.bool value).opens.reads fun _ _ _ _ => ?_
    cases value <;> rfl
  | integer value => exact reads_integer value
  | string text => exact reads_string text
  | array items h ih => exact reads_array h ih
  | object members h ih => exact reads_object h ih

theorem parse?_render {j : Json} (h : Readable j) : parse? j.render = some j := by
  have hread := h.reads (2 * j.write.length + 2) [] (by omega) endsNumber_nil
  rw [List.append_nil] at hread
  simp only [parse?, render, read, String.toList_ofList, hread]
  rfl

end StageGate.Json
