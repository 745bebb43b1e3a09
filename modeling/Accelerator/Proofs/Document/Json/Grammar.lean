import Accelerator.Document.Json.Parser

/-!
# The grammar of JSON

`Json.Spelled t cs` says that the characters `cs` spell out a value that denotes the tree `t`. It is the
grammar of JSON, with blanks wherever they may stand, and without any word on how a text is read.
Whatever the grammar allows is read as what it denotes (`Json.parse?_of_spelled`).

A number can only be followed by something that does not continue it. Everywhere else what follows a
value makes no difference.
-/

namespace Accelerator.Json

/-! ## The grammar -/

def Blanks (cs : List Char) : Prop := ∀ c ∈ cs, isBlank c = true

def Digits (cs : List Char) : Prop := cs ≠ [] ∧ ∀ c ∈ cs, c.isDigit = true

/-- The inside of a text. -/
inductive UnitsSpelled : List TextUnit → List Char → Prop
  | nil : UnitsSpelled [] []
  | plain {c units cs} : c ≠ '"' → c ≠ '\\' → 0x20 ≤ c.toNat → UnitsSpelled units cs →
      UnitsSpelled (.char c :: units) (c :: cs)
  | escaped {letter c units cs} : escapedChar? letter = some c → UnitsSpelled units cs →
      UnitsSpelled (.char c :: units) ('\\' :: letter :: cs)
  | hex {a b c d n units cs} : hexUnit? a b c d = some n → UnitsSpelled units cs →
      UnitsSpelled (.unit n :: units) ('\\' :: 'u' :: a :: b :: c :: d :: cs)

/-- A text in quotation marks. It denotes nothing if half of a surrogate pair is left over. -/
inductive TextSpelled : Option String → List Char → Prop
  | intro {units cs} : UnitsSpelled units cs →
      TextSpelled ((assemble? units).map String.ofList) ('"' :: (cs ++ ['"']))

inductive SignSpelled : Bool → List Char → Prop
  | none : SignSpelled false []
  | minus : SignSpelled true ['-']

/-- The digits before the point. They begin with a zero only if that is all of them. -/
inductive WholeSpelled : Nat → List Char → Prop
  | zero : WholeSpelled 0 ['0']
  | digits {cs} : Digits cs → cs.head? ≠ some '0' → WholeSpelled (ofDigits cs) cs

inductive FractionSpelled : Bool → List Char → Prop
  | none : FractionSpelled false []
  | point {cs} : Digits cs → FractionSpelled true ('.' :: cs)

inductive ExponentSpelled : Bool → List Char → Prop
  | none : ExponentSpelled false []
  | mark {c sign cs} : c ∈ ['e', 'E'] → sign ∈ [[], ['+'], ['-']] → Digits cs →
      ExponentSpelled true (c :: (sign ++ cs))

mutual

/-- A value, from its first character to its last. -/
inductive Spelled : Tree → List Char → Prop
  | null : Spelled .null ['n', 'u', 'l', 'l']
  | isTrue : Spelled (.bool true) ['t', 'r', 'u', 'e']
  | isFalse : Spelled (.bool false) ['f', 'a', 'l', 's', 'e']
  | text {s cs} : TextSpelled s cs → Spelled (ofText s) cs
  | number {negative fraction exponent n sign whole part power} : SignSpelled negative sign →
      WholeSpelled n whole → FractionSpelled fraction part → ExponentSpelled exponent power →
      Spelled (if negative || fraction || exponent then .other else .natural n)
        (sign ++ (whole ++ (part ++ power)))
  | noItems {blanks} : Blanks blanks → Spelled (.list []) ('[' :: (blanks ++ [']']))
  | items {items cs} : ItemsSpelled items cs → Spelled (.list items) ('[' :: (cs ++ [']']))
  | noEntries {blanks} : Blanks blanks → Spelled (.table []) ('{' :: (blanks ++ ['}']))
  | entries {entries cs} : EntriesSpelled entries cs →
      Spelled (ofEntries entries) ('{' :: (cs ++ ['}']))

/-- One item or more, with commas in between. -/
inductive ItemsSpelled : List Tree → List Char → Prop
  | one {item before cs after} : Blanks before → Spelled item cs → Blanks after →
      ItemsSpelled [item] (before ++ (cs ++ after))
  | cons {item before cs after items others} : Blanks before → Spelled item cs → Blanks after →
      ItemsSpelled items others →
      ItemsSpelled (item :: items) (before ++ (cs ++ (after ++ ',' :: others)))

/-- One entry or more, with commas in between. -/
inductive EntriesSpelled : List (Option String × Tree) → List Char → Prop
  | one {name before ns between value gap cs after} : Blanks before → TextSpelled name ns →
      Blanks between → Blanks gap → Spelled value cs → Blanks after →
      EntriesSpelled [(name, value)]
        (before ++ (ns ++ (between ++ ':' :: (gap ++ (cs ++ after)))))
  | cons {name before ns between value gap cs after entries others} : Blanks before →
      TextSpelled name ns → Blanks between → Blanks gap → Spelled value cs → Blanks after →
      EntriesSpelled entries others →
      EntriesSpelled ((name, value) :: entries)
        (before ++ (ns ++ (between ++ ':' :: (gap ++ (cs ++ (after ++ ',' :: others))))))

end

/-- A whole text: a value, and blanks around it. -/
def TreeSpelled (t : Tree) (text : String) : Prop :=
  ∃ before cs after, Blanks before ∧ Spelled t cs ∧ Blanks after ∧
    text.toList = before ++ (cs ++ after)

/-- What may follow a number: nothing that continues it. -/
def Ends (rest : List Char) : Prop :=
  ∀ c, rest.head? = some c → c.isDigit = false ∧ c ≠ '.' ∧ c ≠ 'e' ∧ c ≠ 'E'

/-! ## Blanks -/

theorem blanks_nil : Blanks [] := by simp [Blanks]

theorem ends_nil : Ends [] := nofun

theorem ends_cons {c : Char} (rest : List Char)
    (other : c.isDigit = false ∧ c ≠ '.' ∧ c ≠ 'e' ∧ c ≠ 'E') : Ends (c :: rest) := by
  rintro _ ⟨⟩
  exact other

theorem ends_of_isBlank {c : Char} (rest : List Char) (blank : isBlank c = true) :
    Ends (c :: rest) := by
  refine ends_cons rest ?_
  simp only [isBlank, Bool.or_eq_true, beq_iff_eq] at blank
  rcases blank with ((rfl | rfl) | rfl) | rfl <;> decide

theorem ends_append {blanks rest : List Char} (blank : Blanks blanks) (ends : Ends rest) :
    Ends (blanks ++ rest) := by
  cases blanks with
  | nil => exact ends
  | cons c others => exact ends_of_isBlank _ (blank c (.head _))

theorem skipBlanks_append {blanks : List Char} (blank : Blanks blanks) (rest : List Char) :
    skipBlanks (blanks ++ rest) = skipBlanks rest := List.dropWhile_append_of_pos blank

theorem skipBlanks_cons {c : Char} (rest : List Char) (other : isBlank c = false) :
    skipBlanks (c :: rest) = c :: rest := List.dropWhile_cons_of_neg (by simp [other])

theorem skipBlanks_append_cons {blanks : List Char} (blank : Blanks blanks) {c : Char}
    (rest : List Char) (other : isBlank c = false) :
    skipBlanks (blanks ++ c :: rest) = c :: rest := by
  rw [skipBlanks_append blank, skipBlanks_cons rest other]

theorem skipBlanks_eq_nil {blanks : List Char} (blank : Blanks blanks) : skipBlanks blanks = [] := by
  simpa [skipBlanks] using skipBlanks_append blank []

/-! ## Texts -/

theorem units?_of_spelled {units : List TextUnit} {cs : List Char}
    (spelled : UnitsSpelled units cs) (rest : List Char) :
    units? (cs ++ '"' :: rest) = some (units, rest) := by
  induction spelled with
  | nil => rfl
  | plain no_quote no_escape visible _ ih =>
      rw [List.cons_append, units?]
      · rw [if_neg (by simpa [no_escape] using visible), ih]
        rfl
      · simpa using no_quote
      · simp [no_escape]
      · simp [no_escape]
  | escaped stands _ ih =>
      rename_i letter c units cs _
      have no_u : letter ≠ 'u' := by
        rintro rfl
        cases stands
      rw [List.cons_append, List.cons_append, units?]
      · simp [stands, ih]
      · simp [no_u]
  | hex stands _ ih => simp [units?, stands, ih]

theorem quotedText?_of_spelled {units : List TextUnit} {cs : List Char}
    (spelled : UnitsSpelled units cs) (rest : List Char) :
    quotedText? (cs ++ '"' :: rest) = some ((assemble? units).map String.ofList, rest) := by
  simp [quotedText?, units?_of_spelled spelled]

/-! ## Numbers -/

theorem digits?_append {ds rest : List Char} (digits : Digits ds)
    (ends : ∀ c, rest.head? = some c → c.isDigit = false) :
    digits? (ds ++ rest) = some (ds, rest) := by
  have taken : rest.takeWhile Char.isDigit = [] := by
    cases rest with
    | nil => rfl
    | cons c others => simp [ends c rfl]
  have left : rest.dropWhile Char.isDigit = rest := by
    cases rest with
    | nil => rfl
    | cons c others => simp [ends c rfl]
  rw [digits?, List.takeWhile_append_of_pos digits.2, List.dropWhile_append_of_pos digits.2, taken,
    left, List.append_nil]
  cases ds with
  | nil => exact absurd rfl digits.1
  | cons => rfl

theorem integer?_of_spelled {n : Nat} {cs rest : List Char} (spelled : WholeSpelled n cs)
    (ends : ∀ c, rest.head? = some c → c.isDigit = false) :
    integer? (cs ++ rest) = some (n, rest) := by
  cases spelled with
  | zero => rfl
  | digits digits no_zero =>
      rw [integer?, digits?_append digits ends]
      · rfl
      · rintro others same
        cases cs with
        | nil => exact digits.1 rfl
        | cons c _ =>
            cases same
            exact no_zero rfl

theorem skipFraction?_of_spelled {fraction : Bool} {cs rest : List Char}
    (spelled : FractionSpelled fraction cs)
    (ends : ∀ c, rest.head? = some c → c.isDigit = false ∧ c ≠ '.') :
    skipFraction? (cs ++ rest) = some (fraction, rest) := by
  cases spelled with
  | none =>
      rw [List.nil_append, skipFraction?]
      rintro others rfl
      exact (ends '.' rfl).2 rfl
  | point digits =>
      rw [List.cons_append, skipFraction?, digits?_append digits fun c next => (ends c next).1]
      rfl

theorem skipSign_append {sign ds : List Char} (stands : sign ∈ [[], ['+'], ['-']])
    (digits : Digits ds) (rest : List Char) : skipSign (sign ++ (ds ++ rest)) = ds ++ rest := by
  simp only [List.mem_cons, List.not_mem_nil, or_false] at stands
  rcases stands with rfl | rfl | rfl
  · cases ds with
    | nil => exact absurd rfl digits.1
    | cons c others =>
        have digit := digits.2 c (.head _)
        rw [List.nil_append, List.cons_append, skipSign]
        · rintro _ ⟨⟩
          cases digit
        · rintro _ ⟨⟩
          cases digit
  · rfl
  · rfl

theorem skipExponent?_of_spelled {exponent : Bool} {cs rest : List Char}
    (spelled : ExponentSpelled exponent cs) (ends : Ends rest) :
    skipExponent? (cs ++ rest) = some (exponent, rest) := by
  cases spelled with
  | none =>
      rw [List.nil_append, skipExponent?]
      · rintro others rfl
        exact (ends 'e' rfl).2.2.1 rfl
      · rintro others rfl
        exact (ends 'E' rfl).2.2.2 rfl
  | mark mark sign digits =>
      have read := digits?_append digits fun c next => (ends c next).1
      simp only [List.mem_cons, List.not_mem_nil, or_false] at mark
      rcases mark with rfl | rfl
      all_goals
        simp only [List.cons_append, List.append_assoc, skipExponent?, skipSign_append sign digits,
          read, Option.map_some]

/-- A number begins with its sign or with a digit. -/
theorem WholeSpelled.exists_digit {n : Nat} {cs : List Char} (spelled : WholeSpelled n cs) :
    ∃ c others, cs = c :: others ∧ c.isDigit = true := by
  cases spelled with
  | zero => exact ⟨'0', [], rfl, rfl⟩
  | digits digits _ =>
      cases cs with
      | nil => exact absurd rfl digits.1
      | cons c others => exact ⟨c, others, rfl, digits.2 c (.head _)⟩

theorem number?_of_spelled {negative fraction exponent : Bool} {n : Nat}
    {sign whole part power rest : List Char} (signed : SignSpelled negative sign)
    (digits : WholeSpelled n whole) (point : FractionSpelled fraction part)
    (mark : ExponentSpelled exponent power) (ends : Ends rest) :
    number? (sign ++ (whole ++ (part ++ power)) ++ rest) =
      some (if negative || fraction || exponent then .other else .natural n, rest) := by
  have power_read := skipExponent?_of_spelled mark ends
  have after_part : ∀ c, (power ++ rest).head? = some c → c.isDigit = false ∧ c ≠ '.' := by
    intro c next
    cases mark with
    | none => exact ⟨(ends c next).1, (ends c next).2.1⟩
    | mark mark _ _ =>
        cases next
        simp only [List.mem_cons, List.not_mem_nil, or_false] at mark
        rcases mark with rfl | rfl <;> decide
  have part_read := skipFraction?_of_spelled point after_part
  have after_whole : ∀ c, (part ++ (power ++ rest)).head? = some c → c.isDigit = false := by
    intro c next
    cases point with
    | none => exact (after_part c next).1
    | point _ =>
        cases next
        rfl
  have whole_read := integer?_of_spelled digits after_whole
  cases signed with
  | minus =>
      simp only [number?, List.append_assoc, List.cons_append, List.nil_append, whole_read,
        part_read, power_read, Option.bind_eq_bind, Option.bind_some, Option.pure_def]
  | none =>
      obtain ⟨c, others, rfl, digit⟩ := digits.exists_digit
      have no_minus : c ≠ '-' := by
        rintro rfl
        cases digit
      rw [List.cons_append] at whole_read
      simp only [number?, List.append_assoc, List.nil_append, List.cons_append]
      split
      next same =>
        cases same
        exact absurd rfl no_minus
      next =>
        simp only [whole_read, part_read, power_read, Option.bind_eq_bind, Option.bind_some,
          Option.pure_def]

/-! ## First characters -/

theorem not_isBlank_of_number {c : Char} (begins : c = '-' ∨ c.isDigit = true) :
    isBlank c = false := by
  simp only [isBlank, Bool.or_eq_false_iff, beq_eq_false_iff_ne]
  rcases begins with rfl | digit
  · decide
  · refine ⟨⟨⟨?_, ?_⟩, ?_⟩, ?_⟩ <;> rintro rfl <;> cases digit

/-- A number begins with its sign or with a digit. -/
theorem exists_begin_of_number {negative : Bool} {n : Nat} {sign whole : List Char}
    (signed : SignSpelled negative sign) (digits : WholeSpelled n whole) (rest : List Char) :
    ∃ c others, sign ++ (whole ++ rest) = c :: others ∧ (c = '-' ∨ c.isDigit = true) := by
  cases signed with
  | minus => exact ⟨'-', whole ++ rest, rfl, .inl rfl⟩
  | none =>
      obtain ⟨c, others, rfl, digit⟩ := digits.exists_digit
      exact ⟨c, others ++ rest, rfl, .inr digit⟩

/-- A value begins with something that is no blank and does not close a list. -/
theorem Spelled.exists_begin {t : Tree} {cs : List Char} (spelled : Spelled t cs) :
    ∃ c others, cs = c :: others ∧ isBlank c = false ∧ c ≠ ']' := by
  cases spelled with
  | text spelled =>
      cases spelled
      exact ⟨_, _, rfl, by decide, by decide⟩
  | number signed digits =>
      obtain ⟨c, others, same, begins⟩ := exists_begin_of_number signed digits _
      refine ⟨c, others, same, not_isBlank_of_number begins, ?_⟩
      rintro rfl
      rcases begins with same | digit
      · cases same
      · cases digit
  | _ => exact ⟨_, _, rfl, by decide, by decide⟩

theorem ItemsSpelled.exists_begin {items : List Tree} {cs : List Char}
    (spelled : ItemsSpelled items cs) : ∃ blanks c others, cs = blanks ++ c :: others ∧
      Blanks blanks ∧ isBlank c = false ∧ c ≠ ']' ∧ ItemsSpelled items (c :: others) := by
  cases spelled with
  | one before item after =>
      have stripped := ItemsSpelled.one blanks_nil item after
      obtain ⟨c, others, rfl, visible, opens⟩ := item.exists_begin
      exact ⟨_, c, _, rfl, before, visible, opens, stripped⟩
  | cons before item after items =>
      have stripped := ItemsSpelled.cons blanks_nil item after items
      obtain ⟨c, others, rfl, visible, opens⟩ := item.exists_begin
      exact ⟨_, c, _, rfl, before, visible, opens, stripped⟩

theorem EntriesSpelled.exists_begin {entries : List (Option String × Tree)} {cs : List Char}
    (spelled : EntriesSpelled entries cs) : ∃ blanks others, cs = blanks ++ '"' :: others ∧
      Blanks blanks ∧ EntriesSpelled entries ('"' :: others) := by
  cases spelled with
  | one before name between gap value after =>
      have stripped := EntriesSpelled.one blanks_nil name between gap value after
      cases name
      exact ⟨_, _, rfl, before, stripped⟩
  | cons before name between gap value after entries =>
      have stripped := EntriesSpelled.cons blanks_nil name between gap value after entries
      cases name
      exact ⟨_, _, rfl, before, stripped⟩

/-! ## Values -/

theorem value?_append {blanks : List Char} (blank : Blanks blanks) (fuel : Nat) (cs : List Char) :
    value? fuel (blanks ++ cs) = value? fuel cs := by
  cases fuel with
  | zero => rfl
  | succ fuel => rw [value?, value?, skipBlanks_append blank]

theorem value?_of_number {fuel : Nat} {cs : List Char} {c : Char}
    (begins : c = '-' ∨ c.isDigit = true) :
    value? (fuel + 1) (c :: cs) = number? (c :: cs) := by
  rw [value?, skipBlanks_cons cs (not_isBlank_of_number begins)]
  split
  all_goals first
    | rfl
    | (rename_i same
       cases same
       rcases begins with same | digit
       · cases same
       · cases digit)

/-- What is spelled in no more characters than half the fuel is read. -/
def ReadsValues (fuel : Nat) : Prop :=
  ∀ {t cs} rest, Spelled t cs → 2 * cs.length ≤ fuel → Ends rest →
    value? fuel (cs ++ rest) = some (t, rest)

def ReadsItems (fuel : Nat) : Prop :=
  ∀ {items cs} rest, ItemsSpelled items cs → 2 * cs.length + 1 ≤ fuel →
    items? fuel (cs ++ ']' :: rest) = some (items, rest)

def ReadsEntries (fuel : Nat) : Prop :=
  ∀ {entries cs} rest, EntriesSpelled entries cs → 2 * cs.length + 1 ≤ fuel →
    entries? fuel (cs ++ '}' :: rest) = some (entries, rest)

theorem ends_of_after {after rest : List Char} {c : Char} (blank : Blanks after)
    (closing : c = ',' ∨ c = ']' ∨ c = '}') : Ends (after ++ c :: rest) := by
  refine ends_append blank (ends_cons rest ?_)
  rcases closing with rfl | rfl | rfl <;> decide

theorem readsValues_succ {fuel : Nat} (items : ReadsItems fuel) (entries : ReadsEntries fuel) :
    ReadsValues (fuel + 1) := by
  intro t cs rest spelled enough ends
  cases spelled with
  | null => rfl
  | isTrue => rfl
  | isFalse => rfl
  | text spelled =>
      cases spelled with
      | intro units =>
          simp [value?, skipBlanks, isBlank, quotedText?_of_spelled units]
  | number signed digits point mark =>
      rw [← number?_of_spelled signed digits point mark ends]
      obtain ⟨c, others, same, begins⟩ := exists_begin_of_number signed digits _
      rw [same, List.cons_append]
      exact value?_of_number begins
  | noItems blank =>
      simp [value?, skipBlanks_cons, isBlank, skipBlanks_append_cons blank]
  | items spelled =>
      obtain ⟨blanks, c, others, rfl, blank, visible, opens, stripped⟩ := spelled.exists_begin
      have shorter : 2 * (c :: others).length + 1 ≤ fuel := by
        simp only [List.length_cons, List.length_append] at enough ⊢
        omega
      have read := items rest stripped shorter
      rw [List.cons_append] at read
      simp [value?, skipBlanks_cons, isBlank, skipBlanks_append_cons blank _ visible, opens, read]
  | noEntries blank =>
      simp [value?, skipBlanks_cons, isBlank, skipBlanks_append_cons blank]
  | entries spelled =>
      obtain ⟨blanks, others, rfl, blank, stripped⟩ := spelled.exists_begin
      have shorter : 2 * ('"' :: others).length + 1 ≤ fuel := by
        simp only [List.length_cons, List.length_append] at enough ⊢
        omega
      have read := entries rest stripped shorter
      rw [List.cons_append] at read
      simp [value?, skipBlanks_cons, isBlank, skipBlanks_append_cons blank, read]

/-- A value is read up to the comma or bracket after it. -/
theorem ReadsValues.before {fuel : Nat} (values : ReadsValues fuel) {t : Tree} {cs after : List Char}
    (spelled : Spelled t cs) (blank : Blanks after) (enough : 2 * cs.length ≤ fuel) {c : Char}
    (closing : c = ',' ∨ c = ']' ∨ c = '}') (rest : List Char) :
    value? fuel (cs ++ (after ++ c :: rest)) = some (t, after ++ c :: rest) :=
  values _ spelled enough (ends_of_after blank closing)

theorem readsItems_succ {fuel : Nat} (values : ReadsValues fuel) (items : ReadsItems fuel) :
    ReadsItems (fuel + 1) := by
  intro list cs rest spelled enough
  cases spelled with
  | one before item after =>
      simp only [List.length_append] at enough
      have read := values.before item after (by omega) (.inr (.inl rfl))
      simp [items?, value?_append before, read, skipBlanks_append_cons after, isBlank]
  | cons before item after others =>
      simp only [List.length_append, List.length_cons] at enough
      have read := values.before item after (by omega) (.inl rfl)
      have others_read := items rest others (by omega)
      simp [items?, value?_append before, read, skipBlanks_append_cons after, isBlank, others_read]

theorem readsEntries_succ {fuel : Nat} (values : ReadsValues fuel) (entries : ReadsEntries fuel) :
    ReadsEntries (fuel + 1) := by
  intro list cs rest spelled enough
  cases spelled with
  | one before name between gap value after =>
      simp only [List.length_append, List.length_cons] at enough
      have read := values.before value after (by omega) (.inr (.inr rfl))
      cases name with
      | intro units =>
          simp [entries?, skipBlanks_append_cons before, isBlank, quotedText?_of_spelled units,
            skipBlanks_append_cons between, value?_append gap, read, skipBlanks_append_cons after]
  | cons before name between gap value after others =>
      simp only [List.length_append, List.length_cons] at enough
      have read := values.before value after (by omega) (.inl rfl)
      have others_read := entries rest others (by omega)
      cases name with
      | intro units =>
          simp [entries?, skipBlanks_append_cons before, isBlank, quotedText?_of_spelled units,
            skipBlanks_append_cons between, value?_append gap, read, skipBlanks_append_cons after,
            others_read]

/-- Each level of nesting uses up some fuel and at least one character. -/
theorem reads (fuel : Nat) : ReadsValues fuel ∧ ReadsItems fuel ∧ ReadsEntries fuel := by
  induction fuel with
  | zero =>
      refine ⟨fun rest spelled enough _ => ?_, fun rest _ enough => ?_, fun rest _ enough => ?_⟩
      · obtain ⟨c, others, rfl, -⟩ := spelled.exists_begin
        simp at enough
      · omega
      · omega
  | succ fuel ih =>
      obtain ⟨values, items, entries⟩ := ih
      exact ⟨readsValues_succ items entries, readsItems_succ values items,
        readsEntries_succ values entries⟩

/-- A text that spells out a value, perhaps with blanks around it, is read as what it denotes. -/
theorem parse?_of_spelled {t : Tree} {text : String} (spelled : TreeSpelled t text) :
    parse? text = some t := by
  obtain ⟨before, cs, after, blank, spelled, trailing, same⟩ := spelled
  have ends : Ends after := by
    rw [← List.append_nil after]
    exact ends_append trailing ends_nil
  have read : value? (2 * (before ++ (cs ++ after)).length + 1) (before ++ (cs ++ after)) =
      some (t, after) := by
    rw [value?_append blank]
    refine (reads _).1 after spelled ?_ ends
    simp only [List.length_append]
    omega
  simp only [parse?, same, read, skipBlanks_eq_nil trailing]
  rfl

end Accelerator.Json
