import Accelerator.Proofs.Document.Toml.Value

/-!
# The lines of a TOML document

`Toml.DocumentSpelled statements cs` says that the characters `cs` are the lines of a document that
makes the given statements. A line holds a header, an entry or nothing, with or without a comment. A
header names one table, and an entry has a key of one part and a value of the kinds in
`Toml.ValueSpelled`; any other statement may stand there as well, as long as it is read as what it is
whatever comes next.

A document is read as the statements that it makes (`Toml.document_of_spelled`).
-/

namespace Accelerator.Toml

open Scan

/-! ## The grammar -/

def Blanks (cs : List Char) : Prop := ∀ c ∈ cs, isBlank c = true

/-- One part of a key. -/
inductive NameSpelled : String → List Char → Prop
  | bare {cs} : cs ≠ [] → (∀ c ∈ cs, isBareChar c = true) → NameSpelled (.ofList cs) cs
  | text {s cs} : TextSpelled s cs → NameSpelled s cs

theorem nameSpelled_of_bare {name : String} (some_char : name.toList ≠ [])
    (bare : ∀ c ∈ name.toList, isBareChar c = true) : NameSpelled name name.toList := by
  have spelled := NameSpelled.bare some_char bare
  rwa [String.ofList_toList] at spelled

inductive CommentSpelled : List Char → Prop
  | intro {cs} : (∀ c ∈ cs, isLineChar c = true) → CommentSpelled ('#' :: cs)

/-- The end of a line, as it is seen from a statement: blanks, and a comment, a line break or
nothing. -/
def LineStops (rest : List Char) : Prop :=
  ∃ blanks more, rest = blanks ++ more ∧ Blanks blanks ∧
    ∀ c, more.head? = some c → c ∈ ['#', '\n', '\r']

inductive StatementSpelled : Statement → List Char → Prop
  | header {name cs before after} : Blanks before → NameSpelled name cs → Blanks after →
      StatementSpelled (.table ⟨[], name⟩) ('[' :: (before ++ (cs ++ (after ++ [']']))))
  | entry {name cs between gap t vs} : NameSpelled name cs → Blanks between → Blanks gap →
      ValueSpelled t vs → StatementSpelled (.entry ⟨[], name⟩ t) (cs ++ (between ++ '=' :: (gap ++ vs)))
  | other {st cs} : (∀ c, cs.head? = some c → isBlank c = false) →
      (∀ rest, LineStops rest → Reads statement (cs ++ rest) st rest) → StatementSpelled st cs

/-- A line, from its first character that is no blank to the line break. -/
inductive LineSpelled : Option Statement → List Char → Prop
  | empty : LineSpelled none []
  | comment {cs} : CommentSpelled cs → LineSpelled none cs
  | statement {st cs blanks tail} : StatementSpelled st cs → Blanks blanks →
      tail = [] ∨ CommentSpelled tail → LineSpelled (some st) (cs ++ (blanks ++ tail))

inductive DocumentSpelled : List Statement → List Char → Prop
  | last {line cs blanks} : Blanks blanks → LineSpelled line cs →
      DocumentSpelled line.toList (blanks ++ cs)
  | cons {line cs blanks newline statements rest} : Blanks blanks → LineSpelled line cs →
      newline ∈ [['\n'], ['\r', '\n']] → DocumentSpelled statements rest →
      DocumentSpelled (line.toList ++ statements) (blanks ++ (cs ++ (newline ++ rest)))

/-- A whole text. A mark of the byte order may stand at its beginning. -/
def TextDocument (statements : List Statement) (text : String) : Prop :=
  ∃ mark cs, mark ∈ [[], [Char.ofNat 0xFEFF]] ∧ DocumentSpelled statements cs ∧
    text.toList = mark ++ cs

/-! ## Keys -/

theorem reads_blanks {blanks rest : List Char} (blank : Blanks blanks)
    (stop : ∀ c, rest.head? = some c → isBlank c = false) :
    Reads Toml.blanks (blanks ++ rest) () rest := reads_skipWhile blank stop

theorem blanks_nil : Blanks [] := by simp [Blanks]

theorem reads_blanks_nil {rest : List Char} (stop : ∀ c, rest.head? = some c → isBlank c = false) :
    Reads Toml.blanks rest () rest := reads_blanks blanks_nil stop

theorem isBareChar_ne {c d : Char} (bare : isBareChar c = true) (other : isBareChar d = false) :
    c ≠ d := by
  rintro rfl
  rw [bare] at other
  cases other

/-- A key begins with none of the characters that something else begins with. -/
theorem NameSpelled.head {name : String} {cs : List Char} (spelled : NameSpelled name cs)
    (rest : List Char) :
    ∀ c, (cs ++ rest).head? = some c → isBlank c = false ∧ c ≠ '[' := by
  cases spelled with
  | bare some_char bare =>
      cases cs with
      | nil => exact absurd rfl some_char
      | cons c others =>
          rintro _ ⟨⟩
          have first := bare c (.head _)
          simp only [isBlank, Bool.or_eq_false_iff, beq_eq_false_iff_ne]
          exact ⟨⟨isBareChar_ne first rfl, isBareChar_ne first rfl⟩, isBareChar_ne first rfl⟩
  | text spelled =>
      cases spelled <;>
      · rintro _ ⟨⟩
        decide

/-- What comes next is a blank, or else what closes the key. -/
theorem head_of_blanks {after rest : List Char} {c : Char} {kind : Char → Bool} (blank : Blanks after)
    (closing : c ∈ [']', '=']) (other : [' ', '\t', ']', '='].all (fun d => !kind d) = true) :
    ∀ d, (after ++ c :: rest).head? = some d → kind d = false := by
  have none_of : ∀ d ∈ [' ', '\t', ']', '='], kind d = false := fun d member => by
    simpa using List.all_eq_true.mp other d member
  intro d begins
  cases after with
  | nil =>
      cases begins
      exact none_of c (by
        simp only [List.mem_cons, List.not_mem_nil, or_false] at closing ⊢
        exact .inr (.inr closing))
  | cons e others =>
      cases begins
      have first := blank d (.head _)
      simp only [isBlank, Bool.or_eq_true, beq_iff_eq] at first
      exact none_of d (by
        simp only [List.mem_cons, List.not_mem_nil, or_false]
        exact first.elim .inl (fun tab => .inr (.inl tab)))

theorem reads_keyPart {name : String} {before cs after : List Char} (blank : Blanks before)
    (spelled : NameSpelled name cs) (trailing : Blanks after) {c : Char} (closing : c ∈ [']', '='])
    (rest : List Char) :
    Reads keyPart (before ++ (cs ++ (after ++ c :: rest))) name (c :: rest) := by
  have leading := reads_blanks blank fun d begins =>
    (spelled.head (after ++ c :: rest) d begins).1
  have closed : Reads Toml.blanks (after ++ c :: rest) () (c :: rest) := by
    refine reads_blanks trailing ?_
    rintro _ ⟨⟩
    simp only [List.mem_cons, List.not_mem_nil, or_false] at closing
    rcases closing with rfl | rfl <;> decide
  have part : ∃ s, name = .ofList s ∧ Reads (basicText <|> literalText <|> takeWhile1 isBareChar)
      (cs ++ (after ++ c :: rest)) s (after ++ c :: rest) := by
    cases spelled with
    | bare some_char bare =>
        cases cs with
        | nil => exact absurd rfl some_char
        | cons d others =>
            obtain ⟨first, more⟩ := List.forall_mem_cons.mp bare
            have no_basic : Fails basicText (d :: (others ++ (after ++ c :: rest))) :=
              (fails_char (by simpa using isBareChar_ne first (d := '"') rfl)).bind
            have no_literal : Fails literalText (d :: (others ++ (after ++ c :: rest))) :=
              (fails_char (by simpa using isBareChar_ne first (d := '\'') rfl)).bind
            exact ⟨_, rfl, no_basic.orElse_reads (no_literal.orElse_reads
              (reads_takeWhile1 first more (head_of_blanks trailing closing (by decide))))⟩
    | text spelled =>
        cases spelled with
        | basic inside =>
            rw [List.cons_append, List.append_assoc, List.singleton_append]
            exact ⟨_, rfl, (reads_basicText inside _).orElse⟩
        | literal plain =>
            rw [List.cons_append, List.append_assoc, List.singleton_append]
            have no_basic : ∀ cs, Fails basicText ('\'' :: cs) := fun _ => (fails_char (by simp)).bind
            exact ⟨_, rfl, (no_basic _).orElse_reads (reads_literalText plain _).orElse⟩
  obtain ⟨s, rfl, read⟩ := part
  exact leading.bind (read.bind (closed.bind (.pure _ _)))

theorem reads_key {name : String} {before cs after : List Char} (blank : Blanks before)
    (spelled : NameSpelled name cs) (trailing : Blanks after) {c : Char} (closing : c ∈ [']', '='])
    (rest : List Char) :
    Reads key (before ++ (cs ++ (after ++ c :: rest))) ⟨[], name⟩ (c :: rest) := by
  have single : Fails (do char '.'; keyPart) (c :: rest) := by
    refine (fails_char ?_).bind
    rintro ⟨⟩
    exact absurd closing (by decide)
  have parts := (reads_keyPart blank spelled trailing closing rest).separated single.many
  exact parts.bind (.pure _ _)

/-! ## Statements -/

theorem reads_header {name : String} {before cs after : List Char} (blank : Blanks before)
    (spelled : NameSpelled name cs) (trailing : Blanks after) (rest : List Char) :
    Reads header ('[' :: (before ++ (cs ++ (after ++ ']' :: rest)))) (.table ⟨[], name⟩) rest := by
  have no_further : Fails (char '[') (before ++ (cs ++ (after ++ ']' :: rest))) := by
    refine fails_char ?_
    cases before with
    | nil => exact fun begins => (spelled.head _ _ begins).2 rfl
    | cons b others =>
        rintro ⟨⟩
        cases blank '[' (.head _)
  have many : Fails (word ['[', '[']) ('[' :: (before ++ (cs ++ (after ++ ']' :: rest)))) :=
    (reads_char '[' _).bind_fails no_further.bind
  have named := reads_key blank spelled trailing (by decide : ']' ∈ [']', '=']) rest
  exact many.bind.orElse_reads
    ((reads_char '[' _).bind (named.bind ((reads_char ']' rest).bind (.pure _ rest))))

theorem fails_header {cs : List Char} (other : cs.head? ≠ some '[') : Fails header cs :=
  (fails_word other _).bind.orElse (fails_char other).bind

theorem LineStops.stops {rest : List Char} (stops : LineStops rest) : Stops rest := by
  obtain ⟨blanks, more, rfl, blank, ends⟩ := stops
  intro c begins
  cases blanks with
  | nil =>
      have next := ends c begins
      simp only [List.mem_cons, List.not_mem_nil, or_false] at next ⊢
      grind
  | cons b others =>
      cases begins
      have first := blank c (.head _)
      simp only [isBlank, Bool.or_eq_true, beq_iff_eq] at first
      simp only [List.mem_cons]
      exact first.elim .inl (fun tab => .inr (.inl tab))

theorem reads_entry {name : String} {cs between gap vs rest : List Char} {t : Tree}
    (named : NameSpelled name cs) (blank : Blanks between) (trailing : Blanks gap)
    (spelled : ValueSpelled t vs) (stops : Stops rest) :
    Reads (entry (value (depthLimit - 1))) (cs ++ (between ++ '=' :: (gap ++ (vs ++ rest))))
      (⟨[], name⟩, t) rest := by
  have key_read := reads_key blanks_nil named blank (by decide : '=' ∈ [']', '=']) (gap ++ (vs ++ rest))
  have value_read : Reads (value (depthLimit - 1)) (vs ++ rest) t rest :=
    reads_value spelled stops (depthLimit - 2)
  have gap_read := reads_blanks trailing (spelled.noSpace rest).not_isBlank
  exact key_read.bind ((reads_char '=' _).bind (gap_read.bind (value_read.bind (.pure _ rest))))

theorem reads_statement {st : Statement} {cs rest : List Char} (spelled : StatementSpelled st cs)
    (stops : LineStops rest) : Reads statement (cs ++ rest) st rest := by
  cases spelled with
  | header blank named trailing =>
      rw [List.cons_append, List.append_assoc, List.append_assoc, List.append_assoc,
        List.singleton_append]
      exact (reads_header blank named trailing rest).orElse
  | entry named blank trailing value =>
      rw [List.append_assoc, List.append_assoc, List.cons_append, List.append_assoc]
      have read := reads_entry named blank trailing value stops.stops
      exact (fails_header fun begins => (named.head _ _ begins).2 rfl).orElse_reads
        (read.bind (.pure _ rest))
  | other _ reads => exact reads rest stops

/-- No statement begins like this. -/
theorem fails_statement {cs : List Char} (other : ∀ c, cs.head? = some c →
    c ≠ '[' ∧ c ≠ '"' ∧ c ≠ '\'' ∧ isBlank c = false ∧ isBareChar c = false) :
    Fails statement cs := by
  have no_basic : Fails basicText cs := (fails_char fun begins => (other _ begins).2.1 rfl).bind
  have no_literal : Fails literalText cs := (fails_char fun begins => (other _ begins).2.2.1 rfl).bind
  have no_bare : Fails (takeWhile1 isBareChar) cs :=
    fails_takeWhile1 fun c begins => (other c begins).2.2.2.2
  have leading := reads_blanks_nil fun c begins => (other c begins).2.2.2.1
  have no_part : Fails keyPart cs :=
    leading.bind_fails (no_basic.orElse (no_literal.orElse no_bare)).bind
  exact (fails_header fun begins => (other _ begins).1 rfl).orElse no_part.bind.bind.bind.bind

theorem StatementSpelled.not_isBlank {st : Statement} {cs : List Char}
    (spelled : StatementSpelled st cs) : ∀ c, cs.head? = some c → isBlank c = false := by
  cases spelled with
  | header =>
      rintro _ ⟨⟩
      rfl
  | entry named => exact fun c begins => (named.head _ c begins).1
  | other first => exact first

/-- A statement has a first character, and it is neither that of a comment nor that of a line break. -/
theorem StatementSpelled.exists_head {st : Statement} {cs : List Char}
    (spelled : StatementSpelled st cs) : ∃ c others, cs = c :: others ∧ isBlank c = false ∧
      c ∉ ['#', '\n', '\r', Char.ofNat 0xFEFF] := by
  have read : Reads statement (cs ++ []) st [] :=
    reads_statement spelled ⟨[], [], rfl, blanks_nil, nofun⟩
  rw [List.append_nil] at read
  have begins : ¬ ∀ c, cs.head? = some c →
      c ≠ '[' ∧ c ≠ '"' ∧ c ≠ '\'' ∧ isBlank c = false ∧ isBareChar c = false := fun other => by
    have fails := fails_statement other
    rw [Fails, read] at fails
    cases fails
  cases cs with
  | nil => exact absurd nofun begins
  | cons c others =>
      refine ⟨c, others, rfl, ?_, ?_⟩
      · exact spelled.not_isBlank c rfl
      · intro member
        refine begins ?_
        rintro _ ⟨⟩
        simp only [List.mem_cons, List.not_mem_nil, or_false] at member
        rcases member with rfl | rfl | rfl | rfl <;> decide

/-! ## Lines -/

theorem reads_comment {cs rest : List Char} (spelled : CommentSpelled cs)
    (stop : ∀ c, rest.head? = some c → isLineChar c = false) : Reads comment (cs ++ rest) () rest := by
  obtain ⟨line⟩ := spelled
  exact (reads_char '#' _).bind (reads_skipWhile line stop)

/-- The end of a line: a line break and what comes after it, or the end of the text. -/
inductive LineEnd : List Char → List Char → Prop
  | newline {newline} (rest) : newline ∈ [['\n'], ['\r', '\n']] → LineEnd (newline ++ rest) rest
  | ended : LineEnd [] []

theorem LineEnd.reads {cs rest : List Char} (ends : LineEnd cs rest) : Reads lineEnd cs () rest := by
  cases ends with
  | newline _ which => exact (reads_newline which _).orElse
  | ended => exact (fails_newline (by simp) (by simp)).orElse_reads reads_ended

theorem LineEnd.head {cs rest : List Char} (ends : LineEnd cs rest) :
    ∀ c, cs.head? = some c → c ∈ ['\n', '\r'] := by
  cases ends with
  | newline _ which =>
      simp only [List.mem_cons, List.not_mem_nil, or_false] at which
      rcases which with rfl | rfl <;>
      · rintro _ ⟨⟩
        decide
  | ended => exact nofun

/-- No line break is of a kind that holds none. -/
theorem LineEnd.head_not {cs rest : List Char} (ends : LineEnd cs rest) {kind : Char → Bool}
    (other : kind '\n' = false ∧ kind '\r' = false) :
    ∀ c, cs.head? = some c → kind c = false := by
  intro c begins
  have among := ends.head c begins
  simp only [List.mem_cons, List.not_mem_nil, or_false] at among
  rcases among with rfl | rfl
  · exact other.1
  · exact other.2

theorem head_of_tail {tail ending rest : List Char} (trailing : tail = [] ∨ CommentSpelled tail)
    (ends : LineEnd ending rest) :
    ∀ c, (tail ++ ending).head? = some c → c ∈ ['#', '\n', '\r'] := by
  rcases trailing with rfl | comment
  · intro c begins
    exact .tail _ (ends.head c begins)
  · obtain ⟨line⟩ := comment
    rintro _ ⟨⟩
    decide

theorem reads_restOfLine {blanks tail ending rest : List Char} (blank : Blanks blanks)
    (trailing : tail = [] ∨ CommentSpelled tail) (ends : LineEnd ending rest) :
    Reads restOfLine (blanks ++ (tail ++ ending)) () rest := by
  have leading := reads_blanks blank fun c begins => by
    have first := head_of_tail trailing ends c begins
    simp only [List.mem_cons, List.not_mem_nil, or_false] at first
    rcases first with rfl | rfl | rfl <;> decide
  rcases trailing with rfl | comment
  · have no_comment : Fails Toml.comment ending := (fails_char fun begins => absurd
      (ends.head _ begins) (by decide)).bind
    exact leading.bind (no_comment.optional.bind ends.reads)
  · exact leading.bind ((reads_comment comment (ends.head_not (by decide))).optional.bind ends.reads)

theorem reads_line {line : Option Statement} {cs ending rest : List Char}
    (spelled : LineSpelled line cs) (ends : LineEnd ending rest)
    (some_char : cs ++ ending ≠ []) : Reads Toml.line (cs ++ ending) line rest := by
  cases spelled with
  | empty =>
      cases ends with
      | newline _ which =>
          exact ((reads_newline which rest).bind (Reads.pure (none : Option Statement) rest)).orElse
      | ended => exact absurd rfl some_char
  | comment spelled =>
      have read := reads_comment spelled (ends.head_not (by decide))
      have no_newline : Fails newline (cs ++ ending) := by
        obtain ⟨line⟩ := spelled
        exact fails_newline (by simp) (by simp)
      exact no_newline.bind.orElse_reads
        (read.bind (ends.reads.bind (Reads.pure (none : Option Statement) rest))).orElse
  | @statement st cs blanks tail spelled blank trailing =>
      rw [List.append_assoc, List.append_assoc]
      have stops : LineStops (blanks ++ (tail ++ ending)) :=
        ⟨blanks, _, rfl, blank, head_of_tail trailing ends⟩
      have read := reads_statement spelled stops
      have no_newline : Fails newline (cs ++ (blanks ++ (tail ++ ending))) := by
        obtain ⟨c, others, rfl, -, other⟩ := spelled.exists_head
        apply fails_newline <;>
        · rintro ⟨⟩
          exact absurd other (by decide)
      have no_comment : Fails comment (cs ++ (blanks ++ (tail ++ ending))) := by
        obtain ⟨c, others, rfl, -, other⟩ := spelled.exists_head
        refine (fails_char ?_).bind
        rintro ⟨⟩
        exact absurd other (by decide)
      exact no_newline.bind.orElse_reads (no_comment.bind.orElse_reads
        (read.bind ((reads_restOfLine blank trailing ends).bind (.pure _ rest))))

/-! ## Documents -/

/-- A line, and the blanks before the next one. -/
def lineAndBlanks : Scan (Option Statement) := do
  let line ← line
  blanks
  return line

theorem fails_lineAndBlanks_nil : Fails lineAndBlanks [] := by
  have no_newline : Fails newline [] := fails_newline (by simp) (by simp)
  have no_comment : Fails comment [] := (fails_char (by simp)).bind
  have no_statement : Fails statement [] := fails_statement nofun
  exact (no_newline.bind.orElse (no_comment.bind.orElse no_statement.bind)).bind

/-- After the blanks a line begins with something else, and not with a mark of the byte order. -/
theorem LineSpelled.head {line : Option Statement} {cs ending rest : List Char}
    (spelled : LineSpelled line cs) (ends : LineEnd ending rest) :
    ∀ c, (cs ++ ending).head? = some c → isBlank c = false ∧ c ≠ Char.ofNat 0xFEFF := by
  cases spelled with
  | empty =>
      intro c begins
      refine ⟨ends.head_not (by decide) c begins, ?_⟩
      rintro rfl
      exact absurd (ends.head _ begins) (by decide)
  | comment spelled =>
      obtain ⟨line⟩ := spelled
      rintro _ ⟨⟩
      decide
  | statement spelled =>
      obtain ⟨c, others, rfl, visible, other⟩ := spelled.exists_head
      rintro _ ⟨⟩
      refine ⟨visible, ?_⟩
      rintro rfl
      exact absurd other (by decide)

theorem LineSpelled.eq_none {line : Option Statement} {cs : List Char}
    (spelled : LineSpelled line cs) (empty : cs = []) : line = none := by
  cases spelled with
  | empty => rfl
  | comment => rfl
  | statement spelled =>
      obtain ⟨c, others, rfl, -⟩ := spelled.exists_head
      cases empty

/-- The lines are read one after the other, each with the blanks before the next one. -/
theorem exists_reads_lines {statements : List Statement} {cs : List Char}
    (spelled : DocumentSpelled statements cs) : ∃ mid lines, mid.length ≤ cs.length ∧
      Reads blanks cs () mid ∧ Reads (many lineAndBlanks) mid lines [] ∧
      lines.filterMap id = statements := by
  have no_more : Reads blanks [] () [] := reads_blanks_nil (by simp)
  induction spelled with
  | @last line cs blanks blank spelled =>
      have leading := reads_blanks blank fun c begins => (spelled.head .ended c begins).1
      rw [List.append_nil] at leading
      cases cs with
      | nil =>
          cases spelled.eq_none rfl
          exact ⟨[], [], by simp, leading, fails_lineAndBlanks_nil.many, rfl⟩
      | cons c others =>
          have read := reads_line spelled .ended (by simp)
          rw [List.append_nil] at read
          have whole : Reads lineAndBlanks (c :: others) line [] :=
            read.bind (no_more.bind (.pure _ []))
          refine ⟨_, [line], by simp, leading,
            Reads.many whole (by simp) fails_lineAndBlanks_nil.many, ?_⟩
          cases line <;> rfl
  | @cons line cs blanks newline statements rest blank spelled which _ ih =>
      obtain ⟨mid, lines, shorter, next, others, rfl⟩ := ih
      have some_break : 0 < newline.length := by
        simp only [List.mem_cons, List.not_mem_nil, or_false] at which
        rcases which with rfl | rfl <;> decide
      have ends := LineEnd.newline rest which
      have leading := reads_blanks blank fun c begins => (spelled.head ends c begins).1
      have read := reads_line spelled ends (by
        intro empty
        simp [List.append_eq_nil_iff] at empty
        simp [empty.2.1] at some_break)
      have whole : Reads lineAndBlanks (cs ++ (newline ++ rest)) line mid :=
        read.bind (next.bind (.pure _ mid))
      refine ⟨_, line :: lines, by simp, leading, Reads.many whole ?_ others, ?_⟩
      · simp only [List.length_append]
        omega
      · cases line <;> rfl

/-- A document begins with no mark of its own. -/
theorem DocumentSpelled.head {statements : List Statement} {cs : List Char}
    (spelled : DocumentSpelled statements cs) : cs.head? ≠ some (Char.ofNat 0xFEFF) := by
  have none_after : ∀ {blanks others : List Char}, Blanks blanks →
      others.head? ≠ some (Char.ofNat 0xFEFF) →
      (blanks ++ others).head? ≠ some (Char.ofNat 0xFEFF) := by
    intro blanks others blank other
    cases blanks with
    | nil => exact other
    | cons b more =>
        rintro ⟨⟩
        exact absurd (blank _ (.head _)) (by decide)
  cases spelled with
  | last blank spelled =>
      have first := spelled.head .ended
      rw [List.append_nil] at first
      exact none_after blank fun begins => (first _ begins).2 rfl
  | cons blank spelled which =>
      exact none_after blank fun begins => (spelled.head (.newline _ which) _ begins).2 rfl

/-- A document is read as the statements that it makes. -/
theorem document_of_spelled {statements : List Statement} {text : String}
    (spelled : TextDocument statements text) : document.whole? text.toList = some statements := by
  obtain ⟨mark, cs, which, spelled, same⟩ := spelled
  obtain ⟨mid, lines, -, leading, read, rfl⟩ := exists_reads_lines spelled
  rw [same]
  have body : Reads (do blanks; let lines ← many lineAndBlanks; return lines.filterMap id) cs
      (lines.filterMap id) [] := leading.bind (read.bind (.pure _ []))
  refine Reads.whole? ?_
  simp only [List.mem_cons, List.not_mem_nil, or_false] at which
  rcases which with rfl | rfl
  · exact (fails_char spelled.head).optional.bind body
  · exact (reads_char _ cs).optional.bind body

/-- The tree of a document is the one that its statements describe. -/
theorem parse?_of_spelled {statements : List Statement} {text : String}
    (spelled : TextDocument statements text) : parse? text = ofStatements? statements := by
  rw [parse?, document_of_spelled spelled]
  rfl

end Accelerator.Toml
