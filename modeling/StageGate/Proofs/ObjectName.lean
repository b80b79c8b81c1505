import Mathlib.Computability.RegularExpressions
import StageGate.Store.Error

/-!
# Names by their labels

A name is described in three ways: by the scan that reads it, by the regular expression of DNS-1123
subdomains, and by its labels, which are what its dots divide it into. Main statements: `scan_iff`
and `mem_pattern_iff` compare the first two with the labels, and `named_iff_labels` says which names
are accepted.
-/

namespace StageGate.ObjectName

variable {s l m : List Char} {c a b : Char} {place : Place}

/-- One of the labels of a DNS-1123 subdomain. -/
structure IsLabel (label : List Char) : Prop where
  nonempty : label ≠ []
  chars : ∀ c ∈ label, ('a' ≤ c ∧ c ≤ 'z') ∨ ('0' ≤ c ∧ c ≤ '9') ∨ c = '-'
  first : label.head? ≠ some '-'
  last : label.getLast? ≠ some '-'

theorem isAlphanumeric_iff :
    isAlphanumeric c = true ↔ ('a' ≤ c ∧ c ≤ 'z') ∨ ('0' ≤ c ∧ c ≤ '9') := by
  simp [isAlphanumeric]

theorem ne_hyphen_of_isAlphanumeric (h : isAlphanumeric c = true) : c ≠ '-' := by
  rintro rfl
  exact absurd h (by decide)

theorem IsLabel.dotless (h : IsLabel l) : '.' ∉ l := fun hdot => by
  exact absurd (h.chars '.' hdot) (by decide)

-- ---------------------------------------------------------------------------
-- The scan
-- ---------------------------------------------------------------------------

/-- These characters lead from a place in a label to the end of the label. -/
structure Completes (place : Place) (s : List Char) : Prop where
  chars : ∀ c ∈ s, isAlphanumeric c = true ∨ c = '-'
  first : place = .start → s ≠ [] ∧ s.head? ≠ some '-'
  goes_on : place = .hyphen → s ≠ []
  last : s.getLast? ≠ some '-'

theorem completes_start : Completes .start s ↔ IsLabel s := by
  constructor
  · rintro ⟨chars, first, -, last⟩
    refine ⟨(first rfl).1, fun c hc => ?_, (first rfl).2, last⟩
    rw [← or_assoc, ← isAlphanumeric_iff]
    exact chars c hc
  · rintro ⟨nonempty, chars, first, last⟩
    refine ⟨fun c hc => ?_, fun _ => ⟨nonempty, first⟩, nofun, last⟩
    rw [isAlphanumeric_iff, or_assoc]
    exact chars c hc

theorem completes_nil : Completes place [] ↔ place = .inside := by
  constructor
  · rintro ⟨-, first, goes_on, -⟩
    cases place with
    | start => exact absurd rfl (first rfl).1
    | inside => rfl
    | hyphen => exact absurd rfl (goes_on rfl)
  · rintro rfl
    exact ⟨by simp, nofun, nofun, by simp⟩

theorem step_eq_some_iff {next : Place} (h : c ≠ '.') : place.step c = some next ↔
    (isAlphanumeric c = true ∧ next = .inside) ∨ (c = '-' ∧ place ≠ .start ∧ next = .hyphen) := by
  by_cases hc : isAlphanumeric c = true
  · have hhyphen := ne_hyphen_of_isAlphanumeric hc
    cases place <;> simp [Place.step, hc, hhyphen, eq_comm (a := next)]
  · by_cases hhyphen : c = '-'
    · subst hhyphen
      cases place <;> simp [Place.step, isAlphanumeric, eq_comm (a := next)]
    · cases place <;> simp [Place.step, hc, hhyphen, h]

theorem getLast?_cons_ne (c : Char) (s : List Char) :
    (c :: s).getLast? ≠ some '-' ↔ (s = [] → c ≠ '-') ∧ s.getLast? ≠ some '-' := by
  cases s with
  | nil => simp
  | cons d s => simp [List.getLast?_cons_cons]

theorem completes_cons : Completes place (c :: s) ↔
    c ≠ '.' ∧ ∃ next, place.step c = some next ∧ Completes next s := by
  constructor
  · rintro ⟨chars, first, -, last⟩
    obtain ⟨hend, hlast⟩ := (getLast?_cons_ne c s).mp last
    have hrest : ∀ d ∈ s, isAlphanumeric d = true ∨ d = '-' :=
      fun d hd => chars d (List.mem_cons_of_mem _ hd)
    rcases chars c List.mem_cons_self with hc | rfl
    · have hdot : c ≠ '.' := by
        rintro rfl
        exact absurd hc (by decide)
      refine ⟨hdot, .inside, (step_eq_some_iff hdot).mpr (.inl ⟨hc, rfl⟩), ?_⟩
      exact ⟨hrest, nofun, nofun, hlast⟩
    · have hplace : place ≠ .start := fun hstart => (first hstart).2 rfl
      refine ⟨by decide, .hyphen, (step_eq_some_iff (by decide)).mpr (.inr ⟨rfl, hplace, rfl⟩), ?_⟩
      exact ⟨hrest, nofun, fun _ hnil => hend hnil rfl, hlast⟩
  · rintro ⟨hdot, next, hstep, hrest⟩
    rcases (step_eq_some_iff hdot).mp hstep with ⟨hc, rfl⟩ | ⟨rfl, hplace, rfl⟩
    · have hhyphen := ne_hyphen_of_isAlphanumeric hc
      refine ⟨List.forall_mem_cons.mpr ⟨.inl hc, hrest.chars⟩, fun _ => ⟨by simp, by simpa⟩,
        fun _ => by simp, (getLast?_cons_ne c s).mpr ⟨fun _ => hhyphen, hrest.last⟩⟩
    · have hmore : s ≠ [] := hrest.goes_on rfl
      refine ⟨List.forall_mem_cons.mpr ⟨.inr rfl, hrest.chars⟩, fun h => absurd h hplace,
        fun _ => by simp, (getLast?_cons_ne _ s).mpr ⟨fun h => absurd h hmore, hrest.last⟩⟩

theorem splitOn_cons (c : Char) (s : List Char) : (c :: s).splitOn '.' =
    if c = '.' then [] :: s.splitOn '.' else (s.splitOn '.').modifyHead (c :: ·) := by
  simp [List.splitOn, List.splitOnP_cons_eq_if_modifyHead]

theorem scan_cons (place : Place) (c : Char) (s : List Char) : scan place (c :: s) = true ↔
    ∃ next, place.step c = some next ∧ scan next s = true := by
  rw [scan]
  cases place.step c <;> simp

theorem step_dot (place : Place) (next : Place) :
    place.step '.' = some next ↔ place = .inside ∧ next = .start := by
  cases place <;> simp [Place.step, isAlphanumeric, eq_comm]

/-- The scan goes on to the end exactly if the label that it is in is completed and all of those
that follow are labels. -/
theorem scan_iff : scan place s = true ↔ ∃ label rest, s.splitOn '.' = label :: rest ∧
    Completes place label ∧ ∀ l ∈ rest, IsLabel l := by
  induction s generalizing place with
  | nil => simp [scan, List.splitOn, completes_nil]
  | cons c s ih =>
    obtain ⟨first, rest, hsplit⟩ := List.exists_cons_of_ne_nil (List.splitOn_ne_nil '.' s)
    have hnext (next : Place) : scan next s = true ↔
        Completes next first ∧ ∀ l ∈ rest, IsLabel l := by
      simp [ih, hsplit]
    rw [scan_cons, splitOn_cons, hsplit]
    by_cases hdot : c = '.'
    · subst hdot
      simp [step_dot, hnext, completes_nil, completes_start]
    · simp only [if_neg hdot, List.modifyHead_cons, List.cons.injEq, hnext]
      constructor
      · rintro ⟨next, hstep, hfirst, hrest⟩
        exact ⟨_, _, ⟨rfl, rfl⟩, completes_cons.mpr ⟨hdot, next, hstep, hfirst⟩, hrest⟩
      · rintro ⟨_, _, ⟨rfl, rfl⟩, hlabel, hrest⟩
        obtain ⟨-, next, hstep, hfirst⟩ := completes_cons.mp hlabel
        exact ⟨next, hstep, hfirst, hrest⟩

theorem scan_start_iff : scan .start s = true ↔ ∀ l ∈ s.splitOn '.', IsLabel l := by
  obtain ⟨first, rest, hsplit⟩ := List.exists_cons_of_ne_nil (List.splitOn_ne_nil '.' s)
  simp [scan_iff, hsplit, completes_start]

-- ---------------------------------------------------------------------------
-- The regular expression
-- ---------------------------------------------------------------------------

def between (a b : Char) : List Char := (List.range' a.toNat (b.toNat + 1 - a.toNat)).map Char.ofNat

def oneOf (chars : List Char) : RegularExpression Char := (chars.map .char).sum

def optional (r : RegularExpression Char) : RegularExpression Char := 1 + r

def alphanumeric : List Char := between 'a' 'z' ++ between '0' '9'

/-- `[a-z0-9]([-a-z0-9]*[a-z0-9])?` -/
def labelPattern : RegularExpression Char :=
  oneOf alphanumeric * optional ((oneOf ('-' :: alphanumeric)).star * oneOf alphanumeric)

/-- `[a-z0-9]([-a-z0-9]*[a-z0-9])?(\.[a-z0-9]([-a-z0-9]*[a-z0-9])?)*`, for a whole text. -/
def pattern : RegularExpression Char := labelPattern * (.char '.' * labelPattern).star

theorem mem_between (h : b.toNat < 0xd800) : c ∈ between a b ↔ a ≤ c ∧ c ≤ b := by
  have hle (d e : Char) : d ≤ e ↔ d.toNat ≤ e.toNat := Iff.rfl
  simp only [between, List.mem_map, List.mem_range'_1, hle]
  constructor
  · rintro ⟨n, ⟨hfirst, hlast⟩, rfl⟩
    have hn : (Char.ofNat n).toNat = n := by
      rw [Char.ofNat, dif_pos (.inl (by omega))]
      rfl
    omega
  · rintro ⟨hfirst, hlast⟩
    exact ⟨c.toNat, ⟨hfirst, by omega⟩, Char.ofNat_toNat c⟩

theorem mem_alphanumeric : c ∈ alphanumeric ↔ isAlphanumeric c = true := by
  rw [alphanumeric, List.mem_append, mem_between (by decide), mem_between (by decide),
    isAlphanumeric_iff]

theorem mem_char : s ∈ (RegularExpression.char c).matches' ↔ s = [c] := Iff.rfl

theorem mem_oneOf {chars : List Char} : s ∈ (oneOf chars).matches' ↔ ∃ c ∈ chars, s = [c] := by
  induction chars with
  | nil => simp [oneOf]
  | cons c chars ih =>
    have hsum : oneOf (c :: chars) = .char c + oneOf chars := List.sum_cons
    rw [hsum, RegularExpression.matches'_add, Language.mem_add, ih, mem_char]
    simp

theorem mem_star_oneOf {chars : List Char} :
    s ∈ (oneOf chars).star.matches' ↔ ∀ c ∈ s, c ∈ chars := by
  rw [RegularExpression.matches'_star, Language.mem_kstar]
  constructor
  · rintro ⟨parts, rfl, hparts⟩ c hc
    obtain ⟨part, hpart, hc⟩ := List.mem_flatten.mp hc
    obtain ⟨d, hd, rfl⟩ := mem_oneOf.mp (hparts part hpart)
    rwa [List.mem_singleton.mp hc]
  · intro h
    refine ⟨s.map ([·]), (List.flatMap_singleton' s).symm, fun part hpart => ?_⟩
    obtain ⟨c, hc, rfl⟩ := List.mem_map.mp hpart
    exact mem_oneOf.mpr ⟨c, h c hc, rfl⟩

theorem mem_optional {r : RegularExpression Char} :
    s ∈ (optional r).matches' ↔ s = [] ∨ s ∈ r.matches' := by
  rw [optional, RegularExpression.matches'_add, Language.mem_add,
    RegularExpression.matches'_epsilon, Language.mem_one]

theorem mem_labelPattern : s ∈ labelPattern.matches' ↔ IsLabel s := by
  have hsplit : s ∈ labelPattern.matches' ↔ ∃ c, isAlphanumeric c = true ∧ (s = [c] ∨
      ∃ inner d, (∀ x ∈ inner, x = '-' ∨ isAlphanumeric x = true) ∧ isAlphanumeric d = true ∧
        s = c :: (inner ++ [d])) := by
    simp only [labelPattern, RegularExpression.matches'_mul, Language.mem_mul, mem_oneOf,
      mem_optional, mem_star_oneOf, mem_alphanumeric, List.mem_cons]
    constructor
    · rintro ⟨_, ⟨c, hc, rfl⟩, _, rfl | ⟨inner, hinner, _, ⟨d, hd, rfl⟩, rfl⟩, rfl⟩
      · exact ⟨c, hc, .inl rfl⟩
      · exact ⟨c, hc, .inr ⟨inner, d, hinner, hd, rfl⟩⟩
    · rintro ⟨c, hc, rfl | ⟨inner, d, hinner, hd, rfl⟩⟩
      · exact ⟨_, ⟨c, hc, rfl⟩, _, .inl rfl, rfl⟩
      · exact ⟨_, ⟨c, hc, rfl⟩, _, .inr ⟨inner, hinner, _, ⟨d, hd, rfl⟩, rfl⟩, rfl⟩
  rw [hsplit, ← completes_start]
  constructor
  · rintro ⟨c, hc, rfl | ⟨inner, d, hinner, hd, rfl⟩⟩
    · have hhyphen := ne_hyphen_of_isAlphanumeric hc
      exact ⟨by simp [hc], fun _ => by simp [hhyphen], nofun, by simp [hhyphen]⟩
    · have hfirst := ne_hyphen_of_isAlphanumeric hc
      have hlast := ne_hyphen_of_isAlphanumeric hd
      refine ⟨fun x hx => ?_, fun _ => by simp [hfirst], nofun, ?_⟩
      · rcases List.mem_cons.mp hx with rfl | hx
        · exact .inl hc
        · rcases List.mem_append.mp hx with hx | hx
          · exact (hinner x hx).symm
          · exact .inl (List.mem_singleton.mp hx ▸ hd)
      · rw [← List.cons_append, List.getLast?_concat]
        simpa using hlast
  · rintro ⟨chars, first, -, last⟩
    obtain ⟨hne, hfirst⟩ := first rfl
    obtain ⟨c, rest, rfl⟩ := List.exists_cons_of_ne_nil hne
    have hc : c ≠ '-' := by simpa using hfirst
    refine ⟨c, (chars c List.mem_cons_self).resolve_right hc, ?_⟩
    rcases List.eq_nil_or_concat rest with rfl | ⟨inner, d, hrest⟩
    · exact .inl rfl
    · rw [List.concat_eq_append] at hrest
      subst hrest
      rw [← List.cons_append, List.getLast?_concat] at last
      have hd : d ≠ '-' := by simpa using last
      refine .inr ⟨inner, d, fun x hx => (chars x (by simp [hx])).symm, ?_, rfl⟩
      exact (chars d (by simp)).resolve_right hd

theorem mem_star_dotted : s ∈ (RegularExpression.char '.' * labelPattern).star.matches' ↔
    ∃ labels : List (List Char), (∀ l ∈ labels, IsLabel l) ∧
      s = (labels.map ('.' :: ·)).flatten := by
  have hdotted (part : List Char) : part ∈ (RegularExpression.char '.' * labelPattern).matches' ↔
      ∃ l, IsLabel l ∧ '.' :: l = part := by
    simp only [RegularExpression.matches'_mul, Language.mem_mul, mem_char, mem_labelPattern]
    constructor
    · rintro ⟨_, rfl, l, hl, rfl⟩
      exact ⟨l, hl, rfl⟩
    · rintro ⟨l, hl, rfl⟩
      exact ⟨_, rfl, l, hl, rfl⟩
  rw [RegularExpression.matches'_star, Language.mem_kstar]
  constructor
  · rintro ⟨parts, rfl, hparts⟩
    refine ⟨parts.map List.tail, fun l hl => ?_, ?_⟩
    · obtain ⟨part, hpart, rfl⟩ := List.mem_map.mp hl
      obtain ⟨label, hlabel, rfl⟩ := (hdotted part).mp (hparts part hpart)
      exact hlabel
    · rw [List.map_map]
      congr 1
      refine (List.map_id parts).symm.trans (List.map_congr_left fun part hpart => ?_)
      obtain ⟨l, -, rfl⟩ := (hdotted part).mp (hparts part hpart)
      rfl
  · rintro ⟨labels, hlabels, rfl⟩
    refine ⟨_, rfl, fun part hpart => ?_⟩
    obtain ⟨l, hl, rfl⟩ := List.mem_map.mp hpart
    exact (hdotted _).mpr ⟨l, hlabels l hl, rfl⟩

theorem intercalate_dot (first : List Char) (rest : List (List Char)) :
    ['.'].intercalate (first :: rest) = first ++ (rest.map ('.' :: ·)).flatten := by
  induction rest generalizing first with
  | nil => simp
  | cons l rest ih => simp [List.intercalate_cons_cons, ih]

theorem mem_pattern_iff : s ∈ pattern.matches' ↔ ∀ l ∈ s.splitOn '.', IsLabel l := by
  have hjoined : s ∈ pattern.matches' ↔ ∃ first rest, IsLabel first ∧ (∀ l ∈ rest, IsLabel l) ∧
      s = ['.'].intercalate (first :: rest) := by
    simp only [pattern, RegularExpression.matches'_mul, Language.mem_mul, mem_labelPattern,
      mem_star_dotted, intercalate_dot]
    constructor
    · rintro ⟨first, hfirst, _, ⟨rest, hrest, rfl⟩, rfl⟩
      exact ⟨first, rest, hfirst, hrest, rfl⟩
    · rintro ⟨first, rest, hfirst, hrest, rfl⟩
      exact ⟨first, hfirst, _, ⟨rest, hrest, rfl⟩, rfl⟩
  rw [hjoined]
  constructor
  · rintro ⟨first, rest, hfirst, hrest, rfl⟩
    have hall : ∀ l ∈ first :: rest, IsLabel l := List.forall_mem_cons.mpr ⟨hfirst, hrest⟩
    rwa [List.splitOn_intercalate '.' (fun l hl => (hall l hl).dotless) (by simp)]
  · intro hall
    obtain ⟨first, rest, hsplit⟩ := List.exists_cons_of_ne_nil (List.splitOn_ne_nil '.' s)
    rw [hsplit] at hall
    obtain ⟨hfirst, hrest⟩ := List.forall_mem_cons.mp hall
    exact ⟨first, rest, hfirst, hrest, by rw [← hsplit, List.intercalate_splitOn]⟩

-- ---------------------------------------------------------------------------
-- Names
-- ---------------------------------------------------------------------------

/-- For any kind of object a text is accepted as a name exactly if it has at most 253 bytes and all
that its dots divide it into are labels; and that is the case exactly if it has at most 253 bytes
and the regular expression matches the whole of it. -/
theorem named_iff_labels (kind name : String) :
    (checkName kind name = .ok () ↔
      name.utf8ByteSize ≤ 253 ∧ ∀ label ∈ name.toList.splitOn '.', IsLabel label) ∧
    (checkName kind name = .ok () ↔
      name.utf8ByteSize ≤ 253 ∧ name.toList ∈ pattern.matches') := by
  have hscan : checkName kind name = .ok () ↔
      name.utf8ByteSize ≤ 253 ∧ scan .start name.toList = true := by
    have hlongest : longest < name.utf8ByteSize ↔ ¬name.utf8ByteSize ≤ 253 := Nat.not_le.symm
    unfold checkName fault?
    by_cases hempty : name = ""
    · simp [hempty, scan]
    · by_cases hlong : name.utf8ByteSize ≤ 253
      · cases scan .start name.toList <;> simp [hempty, hlongest, hlong]
      · simp [hempty, hlongest, hlong]
  exact ⟨by rw [hscan, scan_start_iff], by rw [hscan, scan_start_iff, mem_pattern_iff]⟩

end StageGate.ObjectName
