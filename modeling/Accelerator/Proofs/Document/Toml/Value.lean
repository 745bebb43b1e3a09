import Accelerator.Document.Toml.Parser
import Accelerator.Proofs.Document.Scan

/-!
# Values in TOML

`Toml.ValueSpelled t cs` says that the characters `cs` spell out a value that denotes the tree `t`: a
text between quotation marks on one line, a natural number in base ten, or a list of such. Each is read
as what it denotes, if what follows cannot continue it (`Toml.reads_value`).
-/

namespace Accelerator.Toml

open Scan

/-! ## What may follow -/

/-- Nothing, or a character that is part of no value. -/
def Stops (rest : List Char) : Prop :=
  ∀ c, rest.head? = some c → c ∈ [' ', '\t', '\n', '\r', ',', ']', '}', '#']

theorem stops_cons {c : Char} (stop : c ∈ [' ', '\t', '\n', '\r', ',', ']', '}', '#'])
    (rest : List Char) : Stops (c :: rest) := by
  rintro _ ⟨⟩
  exact stop

/-- What follows is of no kind that no stop is of. -/
theorem Stops.head {rest : List Char} (stops : Stops rest) {kind : Char → Bool}
    (apart : ([' ', '\t', '\n', '\r', ',', ']', '}', '#'].all fun c => !kind c) = true) :
    ∀ c, rest.head? = some c → kind c = false := fun c begins => by
  simpa using List.all_eq_true.mp apart c (stops c begins)

theorem Stops.head_ne {rest : List Char} (stops : Stops rest) {c : Char}
    (other : c ∉ [' ', '\t', '\n', '\r', ',', ']', '}', '#']) : rest.head? ≠ some c :=
  fun begins => other (stops c begins)

/-! ## Texts -/

/-- The inside of a text between double quotation marks. -/
inductive CharsSpelled : List Char → List Char → Prop
  | nil : CharsSpelled [] []
  | plain {c s cs} : isLineChar c = true → c ≠ '"' → c ≠ '\\' → CharsSpelled s cs →
      CharsSpelled (c :: s) (c :: cs)
  | escaped {letter c s cs} : escapedChar? letter = some c → CharsSpelled s cs →
      CharsSpelled (c :: s) ('\\' :: letter :: cs)
  | hex {letter digits c s cs} : (letter, digits.length) ∈ [('u', 4), ('U', 8)] →
      (∀ d ∈ digits, isHexDigit d = true) → ofCodePoint? (ofDigits 16 digits) = some c →
      CharsSpelled s cs → CharsSpelled (c :: s) ('\\' :: letter :: (digits ++ cs))

/-- A text between double quotation marks, or between single ones and then without escapes. -/
inductive TextSpelled : String → List Char → Prop
  | basic {s cs} : CharsSpelled s cs → TextSpelled (.ofList s) ('"' :: (cs ++ ['"']))
  | literal {s} : (∀ c ∈ s, isLineChar c = true ∧ c ≠ '\'') →
      TextSpelled (.ofList s) ('\'' :: (s ++ ['\'']))

theorem fails_plainChar_backslash (cs : List Char) : Fails plainChar ('\\' :: cs) :=
  fails_satisfy fun c begins => by
    cases begins
    decide

theorem reads_hexEscape {digits : List Char} {c : Char} (hex : ∀ d ∈ digits, isHexDigit d = true)
    (point : ofCodePoint? (ofDigits 16 digits) = some c) (rest : List Char) :
    Reads (hexEscape digits.length) (digits ++ rest) c rest := by
  refine (reads_exactly hex rest).bind ?_
  simp only [point]
  exact .pure c rest

theorem reads_escape_letter {letter c : Char} (stands : escapedChar? letter = some c)
    (rest : List Char) : Reads escape ('\\' :: letter :: rest) c rest := by
  refine (reads_char '\\' _).bind ((reads_satisfy rfl _).bind ?_)
  have given := stands
  unfold escapedChar? at given
  split at given
  case h_8 => cases given
  all_goals
    cases given
    exact .pure _ rest

theorem reads_escape_hex {letter c : Char} {digits : List Char}
    (which : (letter, digits.length) ∈ [('u', 4), ('U', 8)])
    (hex : ∀ d ∈ digits, isHexDigit d = true)
    (point : ofCodePoint? (ofDigits 16 digits) = some c) (rest : List Char) :
    Reads escape ('\\' :: letter :: (digits ++ rest)) c rest := by
  refine (reads_char '\\' _).bind ((reads_satisfy rfl _).bind ?_)
  have read := reads_hexEscape hex point rest
  simp only [List.mem_cons, Prod.mk.injEq, List.not_mem_nil, or_false] at which
  rcases which with ⟨rfl, length⟩ | ⟨rfl, length⟩
  · rwa [length] at read
  · rwa [length] at read

/-- The inside of a text is read up to the closing mark. -/
theorem reads_chars {s cs : List Char} (spelled : CharsSpelled s cs) (rest : List Char) :
    Reads (many (plainChar <|> escape)) (cs ++ '"' :: rest) s ('"' :: rest) := by
  induction spelled with
  | nil =>
      refine Fails.many ((fails_satisfy ?_).orElse (fails_char (by simp)).bind)
      rintro c ⟨⟩
      decide
  | plain visible no_quote no_escape _ ih =>
      refine Reads.many (Reads.orElse (reads_satisfy ?_ _)) (by simp) ih
      simp [visible, no_quote, no_escape]
  | escaped stands _ ih =>
      exact Reads.many ((fails_plainChar_backslash _).orElse_reads (reads_escape_letter stands _))
        (Nat.lt_add_of_pos_right Nat.two_pos) ih
  | hex which digits point _ ih =>
      rw [List.cons_append, List.cons_append, List.append_assoc]
      exact Reads.many ((fails_plainChar_backslash _).orElse_reads
        (reads_escape_hex which digits point _)) (by simp; omega) ih

theorem reads_basicText {s cs : List Char} (spelled : CharsSpelled s cs) (rest : List Char) :
    Reads basicText ('"' :: (cs ++ '"' :: rest)) s rest :=
  (reads_char '"' _).bind ((reads_chars spelled rest).bind ((reads_char '"' rest).bind (.pure s rest)))

theorem reads_literalText {s : List Char} (plain : ∀ c ∈ s, isLineChar c = true ∧ c ≠ '\'')
    (rest : List Char) : Reads literalText ('\'' :: (s ++ '\'' :: rest)) s rest := by
  refine (reads_char '\'' _).bind ((reads_takeWhile (fun c member => ?_) ?_).bind
    ((reads_char '\'' rest).bind (.pure s rest)))
  · simp [plain c member]
  · rintro c ⟨⟩
    decide

/-- A text between single marks is none between three. -/
theorem fails_longBasicText {s cs rest : List Char} (spelled : CharsSpelled s cs)
    (other : rest.head? ≠ some '"') : Fails longBasicText ('"' :: (cs ++ '"' :: rest)) := by
  refine Fails.bind ((reads_char '"' _).bind_fails ?_)
  cases spelled with
  | nil => exact (reads_char '"' _).bind_fails (fails_char other).bind
  | plain _ no_quote => exact (fails_char (by simpa using no_quote)).bind
  | escaped => exact (fails_char (by simp)).bind
  | hex => exact (fails_char (by simp)).bind

theorem fails_longLiteralText {s rest : List Char} (plain : ∀ c ∈ s, isLineChar c = true ∧ c ≠ '\'')
    (other : rest.head? ≠ some '\'') : Fails longLiteralText ('\'' :: (s ++ '\'' :: rest)) := by
  refine Fails.bind ((reads_char '\'' _).bind_fails ?_)
  cases s with
  | nil => exact (reads_char '\'' _).bind_fails (fails_char other).bind
  | cons c others => exact (fails_char (by simpa using (plain c (.head _)).2)).bind

theorem reads_anyText {s : String} {cs rest : List Char} (spelled : TextSpelled s cs)
    (stops : Stops rest) : Reads anyText (cs ++ rest) s rest := by
  cases spelled with
  | basic inside =>
      rw [List.cons_append, List.append_assoc, List.singleton_append]
      have long := fails_longBasicText inside (stops.head_ne (by decide))
      exact (long.orElse_reads (reads_basicText inside rest).orElse).bind (.pure _ rest)
  | literal plain =>
      rw [List.cons_append, List.append_assoc, List.singleton_append]
      have long_basic : ∀ cs, Fails longBasicText ('\'' :: cs) := fun _ =>
        (fails_word (by simp) _).bind
      have basic : ∀ cs, Fails basicText ('\'' :: cs) := fun _ => (fails_char (by simp)).bind
      have long := fails_longLiteralText plain (stops.head_ne (by decide))
      exact ((long_basic _).orElse_reads ((basic _).orElse_reads (long.orElse_reads
        (reads_literalText plain rest)))).bind (.pure _ rest)

/-- What begins with none of the two marks is no text. -/
theorem fails_anyText {cs : List Char} (no_double : cs.head? ≠ some '"')
    (no_single : cs.head? ≠ some '\'') : Fails anyText cs := by
  have basic : Fails basicText cs := (fails_char no_double).bind
  have literal : Fails literalText cs := (fails_char no_single).bind
  have long_basic : Fails longBasicText cs := (fails_word no_double _).bind
  have long_literal : Fails longLiteralText cs := (fails_word no_single _).bind
  exact (long_basic.orElse (basic.orElse (long_literal.orElse literal))).bind

/-! ## Numbers -/

/-- Digits in base ten. They begin with a zero only if that is all of them. -/
inductive NaturalSpelled : Nat → List Char → Prop
  | zero : NaturalSpelled 0 ['0']
  | digits {c cs} : c.isDigit = true → c ≠ '0' → (∀ d ∈ cs, d.isDigit = true) →
      NaturalSpelled (ofDigits 10 (c :: cs)) (c :: cs)

theorem NaturalSpelled.digits_of {n : Nat} {cs : List Char} (spelled : NaturalSpelled n cs) :
    ofDigits 10 cs = n ∧ ∀ c ∈ cs, c.isDigit = true := by
  cases spelled with
  | zero => exact ⟨rfl, List.forall_mem_singleton.mpr rfl⟩
  | digits first _ others => exact ⟨rfl, List.forall_mem_cons.mpr ⟨first, others⟩⟩

theorem NaturalSpelled.exists_head {n : Nat} {cs : List Char} (spelled : NaturalSpelled n cs) :
    ∃ c others, cs = c :: others ∧ c.isDigit = true := by
  cases spelled with
  | zero => exact ⟨'0', [], rfl, rfl⟩
  | digits first _ _ => exact ⟨_, _, rfl, first⟩

section Number

variable {n : Nat} {ds rest : List Char}

/-- A part of a time reads some of the digits or nothing. If what would come next is never there,
there is no such time. -/
theorem fails_timePart {α : Type} (digits : ∀ c ∈ ds, c.isDigit = true) (stops : Stops rest)
    {m low high : Nat} {next : Nat → Scan α}
    (other : ∀ value k, Fails (next value) (ds.drop k ++ rest)) :
    Fails (timePart m low high >>= next) (ds ++ rest) := by
  by_cases enough : m ≤ ds.length
  · have taken : Reads (exactly m Char.isDigit) (ds ++ rest) (ds.take m) (ds.drop m ++ rest) := by
      have part : ∀ c ∈ ds.take m, c.isDigit = true := fun c member =>
        digits c (List.mem_of_mem_take member)
      have read := reads_exactly part (ds.drop m ++ rest)
      rwa [List.length_take_of_le enough, ← List.append_assoc, List.take_append_drop] at read
    by_cases within : low ≤ ofDigits 10 (ds.take m) ∧ ofDigits 10 (ds.take m) ≤ high
    · have read : Reads (timePart m low high) (ds ++ rest) (ofDigits 10 (ds.take m))
          (ds.drop m ++ rest) := by
        refine taken.bind ?_
        rw [if_pos within]
        exact .pure _ _
      exact read.bind_fails (other _ m)
    · refine Fails.bind (taken.bind_fails ?_)
      rw [if_neg within]
      exact fails_failure _
  · refine Fails.bind (Fails.bind (fails_exactly ?_))
    cases rest with
    | nil =>
        left
        simp
        omega
    | cons c others =>
        right
        have stop : c.isDigit = false := stops.head (by decide) c rfl
        obtain ⟨k, more⟩ : ∃ k, m - ds.length = k + 1 := ⟨m - ds.length - 1, by omega⟩
        simp [List.take_append, more, stop]

/-- A digit, or one of the characters that may follow a value. -/
theorem head_drop (digits : ∀ c ∈ ds, c.isDigit = true) (stops : Stops rest) (k : Nat) {c : Char}
    (no_digit : c.isDigit = false) (other : c ∉ [' ', '\t', '\n', '\r', ',', ']', '}', '#']) :
    (ds.drop k ++ rest).head? ≠ some c := by
  intro begins
  rcases dropped : ds.drop k with _ | ⟨d, others⟩
  · rw [dropped] at begins
    exact stops.head_ne other begins
  · rw [dropped] at begins
    cases begins
    have member : c ∈ ds := List.mem_of_mem_drop (i := k) (by rw [dropped]; exact .head _)
    rw [digits c member] at no_digit
    cases no_digit

theorem fails_dateTime (digits : ∀ c ∈ ds, c.isDigit = true) (stops : Stops rest) :
    Fails dateTime (ds ++ rest) := by
  have no_date : Fails date (ds ++ rest) := fails_timePart digits stops fun _ k =>
    (fails_char (head_drop digits stops k (by decide) (by decide))).bind
  have no_time : Fails timeOfDay (ds ++ rest) := fails_timePart digits stops fun _ k =>
    (fails_char (head_drop digits stops k (by decide) (by decide))).bind
  exact no_date.bind.orElse no_time.bind

theorem reads_decimalDigits (spelled : NaturalSpelled n ds) (stops : Stops rest) :
    Reads decimalDigits (ds ++ rest) ds rest := by
  cases spelled with
  | zero => exact ((reads_char '0' rest).bind (Reads.pure ['0'] rest)).orElse
  | @digits c cs first no_zero others =>
      have run : ∀ {cs : List Char}, (∀ d ∈ cs, d.isDigit = true) →
          Reads (many (satisfy Char.isDigit <|> (do char '_'; satisfy Char.isDigit)))
            (cs ++ rest) cs rest := by
        intro cs digits
        induction cs with
        | nil =>
            refine Fails.many (Fails.orElse (fails_satisfy (stops.head (by decide)))
              (fails_char (stops.head_ne (by decide))).bind)
        | cons c cs ih =>
            rw [List.forall_mem_cons] at digits
            exact Reads.many (reads_satisfy digits.1 _).orElse (by simp) (ih digits.2)
      exact Fails.orElse_reads (fails_char (by simpa using no_zero)).bind
        ((reads_satisfy first _).bind ((run others).bind (.pure _ rest)))

theorem reads_minusSign {cs : List Char} (no_minus : cs.head? ≠ some '-')
    (no_plus : cs.head? ≠ some '+') : Reads minusSign cs false cs :=
  (fails_char no_minus).bind.orElse_reads ((fails_char no_plus).bind.orElse_reads (.pure _ cs))

theorem NaturalSpelled.head_ne (spelled : NaturalSpelled n ds) (rest : List Char) {c : Char}
    (other : c.isDigit = false) : (ds ++ rest).head? ≠ some c := by
  obtain ⟨d, others, rfl, digit⟩ := spelled.exists_head
  rintro ⟨⟩
  rw [digit] at other
  cases other

theorem fails_decimalFraction (spelled : NaturalSpelled n ds) (stops : Stops rest) :
    Fails decimalFraction (ds ++ rest) := by
  have sign := reads_minusSign (spelled.head_ne rest (by decide)) (spelled.head_ne rest (by decide))
  have exponent : Fails exponent rest := (fails_satisfy (stops.head (by decide))).bind
  have fraction : Fails fraction rest := (fails_char (stops.head_ne (by decide))).bind
  exact sign.bind_fails ((reads_decimalDigits spelled stops).bind_fails
    (exponent.bind.orElse fraction.bind).bind)

theorem fails_specialNumber (spelled : NaturalSpelled n ds) :
    Fails specialNumber (ds ++ rest) := by
  have sign := reads_minusSign (spelled.head_ne rest (by decide)) (spelled.head_ne rest (by decide))
  exact sign.bind_fails ((fails_word (spelled.head_ne rest (by decide)) _).orElse
    (fails_word (spelled.head_ne rest (by decide)) _)).bind

theorem fails_basedInteger (spelled : NaturalSpelled n ds) (stops : Stops rest) {letter : Char}
    (base : Nat) (kind : Char → Bool)
    (other : letter ∉ [' ', '\t', '\n', '\r', ',', ']', '}', '#']) :
    Fails (basedInteger letter base kind) (ds ++ rest) := by
  refine Fails.bind ?_
  cases spelled with
  | zero => exact (reads_char '0' rest).bind_fails (fails_char (stops.head_ne other)).bind
  | digits _ no_zero _ => exact fails_word (by simpa using no_zero) _

theorem reads_number (spelled : NaturalSpelled n ds) (small : n ≤ integerLimit)
    (stops : Stops rest) : Reads number (ds ++ rest) (.natural n) rest := by
  have sign := reads_minusSign (spelled.head_ne rest (by decide)) (spelled.head_ne rest (by decide))
  have decimal : Reads decimalInteger (ds ++ rest) (.natural n) rest := by
    refine sign.bind ((reads_decimalDigits spelled stops).bind ?_)
    rw [spelled.digits_of.1, ofInteger?, if_neg (by simp), if_pos small]
    exact .pure _ rest
  have whole : Reads integer (ds ++ rest) (.natural n) rest :=
    (fails_basedInteger spelled stops _ _ (by decide)).orElse_reads
      ((fails_basedInteger spelled stops _ _ (by decide)).orElse_reads
        ((fails_basedInteger spelled stops _ _ (by decide)).orElse_reads decimal))
  exact (fails_dateTime spelled.digits_of.2 stops).orElse_reads
    ((fails_decimalFraction spelled stops).orElse_reads
      ((fails_specialNumber spelled).orElse_reads whole))

end Number

/-! ## Plain values -/

inductive PlainSpelled : Tree → List Char → Prop
  | natural {n cs} : NaturalSpelled n cs → n ≤ integerLimit → PlainSpelled (.natural n) cs
  | text {s cs} : TextSpelled s cs → PlainSpelled (.text s) cs

theorem reads_plainValue {t : Tree} {cs rest : List Char} (spelled : PlainSpelled t cs)
    (stops : Stops rest) : Reads plainValue (cs ++ rest) t rest := by
  cases spelled with
  | text spelled => exact ((reads_anyText spelled stops).bind (Reads.pure (Tree.text _) rest)).orElse
  | natural spelled small =>
      have text := fails_anyText (spelled.head_ne rest (c := '"') (by decide))
        (spelled.head_ne rest (by decide))
      have bool : Fails boolean (cs ++ rest) :=
        (fails_word (spelled.head_ne rest (by decide)) _).bind.orElse
          (fails_word (spelled.head_ne rest (by decide)) _).bind
      exact text.bind.orElse_reads (bool.orElse_reads (reads_number spelled small stops))

/-- A plain value is a value at any depth. -/
theorem reads_value_of_plain {t : Tree} {cs rest : List Char} (spelled : PlainSpelled t cs)
    (stops : Stops rest) (depth : Nat) : Reads (value depth) (cs ++ rest) t rest := by
  cases depth with
  | zero => exact reads_plainValue spelled stops
  | succ depth => exact (reads_plainValue spelled stops).orElse

/-! ## Lists -/

/-- Blanks and line feeds. -/
def Spaces (cs : List Char) : Prop := ∀ c ∈ cs, c ∈ [' ', '\t', '\n']

/-- Nothing that counts as space follows. -/
def NoSpace (rest : List Char) : Prop :=
  ∀ c, rest.head? = some c → c ∉ [' ', '\t', '\n', '\r', '#']

theorem reads_newline {cs : List Char} (which : cs ∈ [['\n'], ['\r', '\n']]) (rest : List Char) :
    Reads newline (cs ++ rest) () rest := by
  simp only [List.mem_cons, List.not_mem_nil, or_false] at which
  rcases which with rfl | rfl
  · exact (fails_char (by simp)).optional.bind (reads_char '\n' rest)
  · exact (reads_char '\r' _).optional.bind (reads_char '\n' rest)

theorem fails_newline {cs : List Char} (no_feed : cs.head? ≠ some '\n')
    (no_return : cs.head? ≠ some '\r') : Fails newline cs :=
  (fails_char no_return).optional.bind_fails (fails_char no_feed)

/-- What reads one run of space: a line feed, all blanks up to the next other character, or a
comment. -/
def spaceRun : Scan Unit := newline <|> (do let _ ← takeWhile1 isBlank) <|> (do comment; newline)

theorem NoSpace.not_isBlank {rest : List Char} (stop : NoSpace rest) :
    ∀ c, rest.head? = some c → isBlank c = false := by
  intro c begins
  have other := stop c begins
  simp only [List.mem_cons, List.not_mem_nil, or_false, not_or] at other
  simp [isBlank, other]

theorem fails_spaceRun {rest : List Char} (stop : NoSpace rest) : Fails spaceRun rest := by
  have no_newline : Fails newline rest := fails_newline
    (fun begins => stop _ begins (by decide)) fun begins => stop _ begins (by decide)
  have no_comment : Fails comment rest := (fails_char fun begins => stop _ begins (by decide)).bind
  exact no_newline.orElse ((fails_takeWhile1 stop.not_isBlank).bind.orElse no_comment.bind)

theorem reads_spaceRun {c : Char} {cs rest : List Char} (blank : isBlank c = true)
    (run : ∀ d ∈ cs, isBlank d = true) (stop : ∀ d, rest.head? = some d → isBlank d = false) :
    Reads spaceRun (c :: (cs ++ rest)) () rest := by
  have no_newline : Fails newline (c :: (cs ++ rest)) := by
    apply fails_newline <;>
    · rintro ⟨⟩
      cases blank
  have read : Reads (do let _ ← takeWhile1 isBlank) (c :: (cs ++ rest)) () rest :=
    (reads_takeWhile1 blank run stop).bind (.pure () rest)
  exact no_newline.orElse_reads read.orElse

/-- What counts as space begins with a run, and goes on with less of it. -/
theorem exists_reads_spaceRun {c : Char} {cs rest : List Char} (spaces : Spaces (c :: cs))
    (stop : NoSpace rest) : ∃ left, left.length ≤ cs.length ∧ Spaces left ∧
      Reads spaceRun (c :: (cs ++ rest)) () (left ++ rest) := by
  obtain ⟨first, others⟩ := List.forall_mem_cons.mp spaces
  by_cases feed : c = '\n'
  · subst feed
    exact ⟨cs, Nat.le_refl _, others, (reads_newline (by simp : ['\n'] ∈ _) _).orElse⟩
  · have blank : isBlank c = true := by
      simp only [List.mem_cons, List.not_mem_nil, or_false] at first
      rcases first with rfl | rfl | rfl
      · rfl
      · rfl
      · exact absurd rfl feed
    have run : ∀ d ∈ cs.takeWhile isBlank, isBlank d = true := fun d member =>
      List.all_eq_true.mp List.all_takeWhile d member
    have stopped : ∀ d, (cs.dropWhile isBlank ++ rest).head? = some d → isBlank d = false := by
      intro d begins
      rcases left : cs.dropWhile isBlank with _ | ⟨e, tail⟩
      · rw [left] at begins
        exact stop.not_isBlank d begins
      · rw [left] at begins
        cases begins
        have first := List.head?_dropWhile_not isBlank cs
        rwa [left] at first
    have read := reads_spaceRun blank run stopped
    rw [← List.append_assoc, List.takeWhile_append_dropWhile] at read
    exact ⟨_, (List.dropWhile_sublist _).length_le,
      fun d member => others d ((List.dropWhile_sublist _).subset member), read⟩

theorem exists_reads_space {cs rest : List Char} (spaces : Spaces cs) (stop : NoSpace rest) :
    ∃ units, Reads (many spaceRun) (cs ++ rest) units rest := by
  obtain ⟨bound, short⟩ : ∃ bound, cs.length ≤ bound := ⟨_, Nat.le_refl _⟩
  induction bound generalizing cs with
  | zero =>
      cases List.eq_nil_of_length_eq_zero (Nat.le_zero.mp short)
      exact ⟨[], (fails_spaceRun stop).many⟩
  | succ bound ih =>
      cases cs with
      | nil => exact ⟨[], (fails_spaceRun stop).many⟩
      | cons c others =>
          obtain ⟨left, shorter, spaces_left, run⟩ := exists_reads_spaceRun spaces stop
          rw [List.length_cons] at short
          obtain ⟨units, read⟩ := ih spaces_left (by omega)
          have ahead : (left ++ rest).length < (c :: (others ++ rest)).length := by
            simp only [List.length_cons, List.length_append]
            omega
          exact ⟨_, run.many ahead read⟩

theorem reads_space {cs rest : List Char} (spaces : Spaces cs) (stop : NoSpace rest) :
    Reads space (cs ++ rest) () rest := by
  obtain ⟨units, read⟩ := exists_reads_space spaces stop
  exact read.bind (.pure () rest)

/-- A plain value with space around it. -/
inductive ItemSpelled : Tree → List Char → Prop
  | intro {t before cs after} : Spaces before → PlainSpelled t cs → Spaces after →
      ItemSpelled t (before ++ (cs ++ after))

/-- One item or more, with commas in between. -/
inductive ItemsSpelled : List Tree → List Char → Prop
  | one {item cs} : ItemSpelled item cs → ItemsSpelled [item] cs
  | cons {item cs items others} : ItemSpelled item cs → ItemsSpelled items others →
      ItemsSpelled (item :: items) (cs ++ ',' :: others)

inductive ValueSpelled : Tree → List Char → Prop
  | plain {t cs} : PlainSpelled t cs → ValueSpelled t cs
  | noItems {space} : Spaces space → ValueSpelled (.list []) ('[' :: (space ++ [']']))
  | items {items cs} : ItemsSpelled items cs → ValueSpelled (.list items) ('[' :: (cs ++ [']']))
  | comma {items cs space} : ItemsSpelled items cs → Spaces space →
      ValueSpelled (.list items) ('[' :: (cs ++ ',' :: (space ++ [']'])))

theorem PlainSpelled.noSpace {t : Tree} {cs : List Char} (spelled : PlainSpelled t cs)
    (rest : List Char) : NoSpace (cs ++ rest) := by
  cases spelled with
  | natural spelled =>
      obtain ⟨c, others, rfl, digit⟩ := spelled.exists_head
      rintro _ ⟨⟩ member
      simp only [List.mem_cons, List.not_mem_nil, or_false] at member
      rcases member with rfl | rfl | rfl | rfl | rfl <;> cases digit
  | text spelled =>
      cases spelled <;>
      · rintro _ ⟨⟩
        decide

/-- What reads an item of a list, given what reads its value. -/
def item (value : Scan Tree) : Scan Tree := do
  space
  let item ← value
  space
  return item

theorem stops_of_space {space rest : List Char} (spaces : Spaces space) (stops : Stops rest) :
    Stops (space ++ rest) := by
  cases space with
  | nil => exact stops
  | cons c others =>
      refine stops_cons ?_ _
      have first := spaces c (.head _)
      simp only [List.mem_cons, List.not_mem_nil, or_false] at first
      rcases first with rfl | rfl | rfl <;> decide

theorem reads_item {t : Tree} {cs rest : List Char} (spelled : ItemSpelled t cs) (depth : Nat)
    (stops : Stops rest) (stop : NoSpace rest) : Reads (item (value depth)) (cs ++ rest) t rest := by
  obtain ⟨before, plain, after⟩ := spelled
  rw [List.append_assoc, List.append_assoc]
  exact (reads_space before (plain.noSpace _)).bind
    ((reads_value_of_plain plain (stops_of_space after stops) depth).bind
      ((reads_space after stop).bind (.pure t rest)))

theorem noSpace_cons {c : Char} (other : c ∉ [' ', '\t', '\n', '\r', '#']) (rest : List Char) :
    NoSpace (c :: rest) := by
  rintro _ ⟨⟩
  exact other

theorem noSpace_bracket (rest : List Char) : NoSpace (']' :: rest) := noSpace_cons (by decide) rest

/-- All items are read, up to where no further one follows. -/
theorem exists_reads_items {items : List Tree} {cs rest : List Char}
    (spelled : ItemsSpelled items cs) {depth : Nat} (stops : Stops rest) (stop : NoSpace rest)
    (last : Fails (do char ','; item (value depth)) rest) :
    ∃ first others mid, items = first :: others ∧ mid.length ≤ (cs ++ rest).length ∧
      Reads (item (value depth)) (cs ++ rest) first mid ∧
      Reads (many (do char ','; item (value depth))) mid others rest := by
  induction spelled with
  | one item =>
      exact ⟨_, [], rest, rfl, by simp, reads_item item depth stops stop, last.many⟩
  | cons item _ ih =>
      obtain ⟨first, others, mid, rfl, shorter, next, more⟩ := ih
      rw [List.append_assoc, List.cons_append]
      exact ⟨_, first :: others, _, rfl, by simp,
        reads_item item depth (stops_cons (by decide) _) (noSpace_cons (by decide) _),
        Reads.many ((reads_char ',' _).bind next) (Nat.lt_succ_of_le shorter) more⟩

theorem reads_separated {items : List Tree} {cs rest : List Char}
    (spelled : ItemsSpelled items cs) {depth : Nat} (stops : Stops rest) (stop : NoSpace rest)
    (last : Fails (do char ','; item (value depth)) rest) :
    Reads (separated (item (value depth)) (char ',')) (cs ++ rest) items rest := by
  obtain ⟨first, others, mid, rfl, -, here, more⟩ := exists_reads_items spelled stops stop last
  exact here.separated more

/-- Neither a text nor a truth value nor a number begins like this. -/
theorem fails_plainValue {c : Char} (no_digit : c.isDigit = false)
    (other : c ∉ ['"', '\'', 't', 'f', '+', '-', 'i', 'n']) (rest : List Char) :
    Fails plainValue (c :: rest) := by
  have no_head : ∀ {d : Char}, d.isDigit = true ∨ d ∈ ['"', '\'', 't', 'f', '+', '-', 'i', 'n'] →
      (c :: rest).head? ≠ some d := by
    rintro d which ⟨⟩
    rcases which with digit | member
    · rw [digit] at no_digit
      cases no_digit
    · exact other member
  have no_digits : Fails decimalDigits (c :: rest) :=
    (fails_char (no_head (.inl rfl))).bind.orElse (fails_satisfy (by
      rintro _ ⟨⟩
      exact no_digit)).bind
  have no_part : ∀ {n low high}, 0 < n → Fails (timePart n low high) (c :: rest) := by
    intro n low high some_digit
    refine Fails.bind (fails_exactly (.inr ?_))
    obtain ⟨m, rfl⟩ : ∃ m, n = m + 1 := ⟨n - 1, by omega⟩
    simp [no_digit]
  have sign := reads_minusSign (no_head (d := '-') (by decide)) (no_head (by decide))
  have text := fails_anyText (no_head (d := '"') (by decide)) (no_head (by decide))
  have bool : Fails boolean (c :: rest) :=
    (fails_word (no_head (by decide)) _).bind.orElse (fails_word (no_head (by decide)) _).bind
  have time : Fails dateTime (c :: rest) :=
    (no_part (by decide)).bind.bind.orElse (no_part (by decide)).bind.bind
  have fraction : Fails decimalFraction (c :: rest) := sign.bind_fails no_digits.bind
  have special : Fails specialNumber (c :: rest) :=
    sign.bind_fails ((fails_word (no_head (by decide)) _).orElse
      (fails_word (no_head (by decide)) _)).bind
  have based : ∀ {letter base kind}, Fails (basedInteger letter base kind) (c :: rest) :=
    (fails_word (no_head (by decide)) _).bind
  have whole : Fails integer (c :: rest) :=
    based.orElse (based.orElse (based.orElse (sign.bind_fails no_digits.bind)))
  exact text.bind.orElse (bool.orElse (time.orElse (fraction.orElse (special.orElse whole))))

/-- A closing bracket is no value. -/
theorem fails_value_bracket (depth : Nat) (rest : List Char) :
    Fails (value depth) (']' :: rest) := by
  have plain := fails_plainValue (c := ']') rfl (by decide) rest
  cases depth with
  | zero => exact plain
  | succ depth =>
      exact plain.orElse ((fails_char (by simp)).bind.orElse (fails_char (by simp)).bind)

/-- No item comes after the last one. -/
theorem fails_item_bracket {space : List Char} (spaces : Spaces space) (depth : Nat)
    (rest : List Char) : Fails (item (value depth)) (space ++ ']' :: rest) :=
  (reads_space spaces (noSpace_cons (by decide) rest)).bind_fails (fails_value_bracket depth rest).bind

/-- After the last item of a list there may be a comma, and then space. -/
theorem reads_list {items : List Tree} {cs comma gap rest : List Char}
    (spelled : ItemsSpelled items cs) (closing : comma = [] ∧ gap = [] ∨ comma = [','])
    (spaces : Spaces gap) (depth : Nat) :
    Reads (list (value depth)) ('[' :: (cs ++ (comma ++ (gap ++ ']' :: rest)))) (.list items)
      rest := by
  have close : Reads (do space; char ']'; return Tree.list items) (gap ++ ']' :: rest)
      (.list items) rest :=
    (reads_space spaces (noSpace_bracket rest)).bind ((reads_char ']' rest).bind (.pure _ rest))
  rcases closing with ⟨rfl, rfl⟩ | rfl
  · have last : Fails (do char ','; item (value depth)) (']' :: rest) := (fails_char (by simp)).bind
    have all := reads_separated spelled (stops_cons (by decide) rest) (noSpace_bracket rest) last
    exact (reads_char '[' _).bind (all.optional.bind ((fails_char (by simp)).optional.bind close))
  · have last : Fails (do char ','; item (value depth)) (',' :: (gap ++ ']' :: rest)) :=
      (reads_char ',' _).bind_fails (fails_item_bracket spaces depth rest)
    have all := reads_separated spelled (stops_cons (by decide) _) (noSpace_cons (by decide) _) last
    exact (reads_char '[' _).bind (all.optional.bind ((reads_char ',' _).optional.bind close))

/-- A value begins with none of the blanks before it. -/
theorem ValueSpelled.noSpace {t : Tree} {cs : List Char} (spelled : ValueSpelled t cs)
    (rest : List Char) : NoSpace (cs ++ rest) := by
  cases spelled with
  | plain spelled => exact spelled.noSpace rest
  | _ => exact noSpace_cons (by decide) _

theorem reads_value {t : Tree} {cs rest : List Char} (spelled : ValueSpelled t cs)
    (stops : Stops rest) (depth : Nat) : Reads (value (depth + 1)) (cs ++ rest) t rest := by
  have is_list : ∀ {cs}, Reads (list (value depth)) ('[' :: cs) t rest →
      Reads (value (depth + 1)) ('[' :: cs) t rest := fun read =>
    (fails_plainValue rfl (by decide) _).orElse_reads read.orElse
  cases spelled with
  | plain spelled => exact reads_value_of_plain spelled stops (depth + 1)
  | @noItems gap spaces =>
      rw [List.cons_append, List.append_assoc, List.singleton_append]
      have none : Reads (optional (separated (item (value depth)) (char ',')))
          (gap ++ ']' :: rest) none (gap ++ ']' :: rest) :=
        (fails_item_bracket spaces depth rest).bind.optional
      have close := reads_space spaces (noSpace_bracket rest)
      exact is_list ((reads_char '[' _).bind (none.bind (close.bind
        ((reads_char ']' rest).bind (.pure _ rest)))))
  | items spelled =>
      rw [List.cons_append, List.append_assoc, List.singleton_append]
      exact is_list (reads_list spelled (.inl ⟨rfl, rfl⟩) nofun depth)
  | comma spelled spaces =>
      rw [List.cons_append, List.append_assoc, List.cons_append, List.append_assoc,
        List.singleton_append]
      exact is_list (reads_list spelled (.inr rfl) spaces depth)

end Accelerator.Toml
