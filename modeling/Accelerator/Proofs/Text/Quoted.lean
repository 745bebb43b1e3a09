import Accelerator.Text.Quoted
import Mathlib.Data.List.Basic

/-!
# What is quoted can be told from the quotation

No character is shown as the beginning of how another one is shown, and none is shown with a quotation
mark in front. So a quotation ends where it seems to end, and it quotes one text only
(`Quoted.encode_append_inj`).
-/

namespace Accelerator.Quoted

/-! ## Numbers of characters -/

theorem toDigits_eq_append (n : Nat) :
    Nat.toDigits 16 n =
      (if n < 16 then [] else Nat.toDigits 16 (n / 16)) ++ [Nat.digitChar (n % 16)] := by
  rw [Nat.toDigits_eq_if (by decide)]
  split
  next small => rw [Nat.mod_eq_of_lt small, List.nil_append]
  next => rfl

theorem digitChar_inj {n m : Nat} (small : n < 16) (small' : m < 16)
    (same : Nat.digitChar n = Nat.digitChar m) : n = m := by
  have distinct : ∀ n < 16, ∀ m < 16, Nat.digitChar n = Nat.digitChar m → n = m := by decide
  exact distinct n small m small' same

theorem digitChar_ne_brace {n : Nat} (small : n < 16) : Nat.digitChar n ≠ '\x7d' := by
  revert n
  decide

theorem toDigits_inj {n m : Nat} (same : Nat.toDigits 16 n = Nat.toDigits 16 m) : n = m := by
  induction n using Nat.strongRecOn generalizing m with
  | ind n ih =>
      rw [toDigits_eq_append n, toDigits_eq_append m] at same
      obtain ⟨front, last⟩ := List.append_inj' same rfl
      have units : n % 16 = m % 16 :=
        digitChar_inj (Nat.mod_lt _ (by decide)) (Nat.mod_lt _ (by decide)) (List.cons.inj last).1
      split at front <;> split at front
      · omega
      · exact absurd front.symm Nat.toDigits_ne_nil
      · exact absurd front Nat.toDigits_ne_nil
      · have sixteenths := ih (n / 16) (by omega) front
        omega

theorem brace_notMem_toDigits (n : Nat) : '\x7d' ∉ Nat.toDigits 16 n := by
  induction n using Nat.strongRecOn with
  | ind n ih =>
      rw [toDigits_eq_append, List.mem_append, List.mem_singleton, not_or]
      refine ⟨?_, (digitChar_ne_brace (Nat.mod_lt _ (by decide))).symm⟩
      split
      · exact List.not_mem_nil
      · exact ih (n / 16) (by omega)

/-- A character ends a text at the first place where it is found. -/
theorem append_cons_inj {c : Char} {front front' rest rest' : List Char} (first : c ∉ front)
    (first' : c ∉ front') (same : front ++ c :: rest = front' ++ c :: rest') :
    front = front' ∧ rest = rest' := by
  have same_front : front = front' := by
    have pieces := congrArg (List.splitOn c) same
    rw [List.splitOn_append_cons_self_of_not_mem first,
      List.splitOn_append_cons_self_of_not_mem first'] at pieces
    exact (List.cons.inj pieces).1
  subst same_front
  exact ⟨rfl, (List.cons.inj (List.append_cancel_left same)).2⟩

/-! ## Characters -/

/-- The characters with a letter, each with its letter. -/
def letters : List (Char × Char) :=
  [('"', '"'), ('\\', '\\'), ('\t', 't'), ('\n', 'n'), ('\r', 'r'), ('\x00', '0')]

theorem mem_letters {c l : Char} (lettered : letter? c = some l) : (c, l) ∈ letters := by
  unfold letter? at lettered
  split at lettered <;> cases lettered <;> decide

theorem letter?_inj {c d l : Char} (lettered : letter? c = some l) (lettered' : letter? d = some l) :
    c = d := by
  have distinct : ∀ p ∈ letters, ∀ q ∈ letters, p.2 = q.2 → p.1 = q.1 := by decide
  exact distinct _ (mem_letters lettered) _ (mem_letters lettered') rfl

/-- A letter never introduces a number. -/
theorem letter?_ne {c l : Char} (lettered : letter? c = some l) : l ≠ 'u' := by
  have others : ∀ p ∈ letters, p.2 ≠ 'u' := by decide
  exact others _ (mem_letters lettered)

/-- The ways in which a character is shown. -/
inductive Shown (c : Char) : List Char → Prop
  | letter {l : Char} : letter? c = some l → Shown c ['\\', l]
  | number : Shown c ('\\' :: 'u' :: '\x7b' :: (Nat.toDigits 16 c.toNat ++ ['\x7d']))
  | plain : c ≠ '\\' → c ≠ '"' → Shown c [c]

theorem shown_encodeChar (c : Char) : Shown c (encodeChar c) := by
  unfold encodeChar
  split
  next lettered => exact .letter lettered
  next unlettered =>
    split
    · exact .number
    · refine .plain ?_ ?_
      all_goals
        rintro rfl
        cases unlettered

theorem Shown.ne_quote {c : Char} {shown rest rest' : List Char} (shows : Shown c shown) :
    shown ++ rest ≠ '"' :: rest' := by
  cases shows with
  | letter => simp
  | number => simp
  | plain _ other => simp [other]

theorem Shown.inj {c d : Char} {shown shown' rest rest' : List Char} (shows : Shown c shown)
    (shows' : Shown d shown') (same : shown ++ rest = shown' ++ rest') : c = d ∧ rest = rest' := by
  cases shows with
  | letter lettered =>
      cases shows' with
      | letter lettered' =>
          simp only [List.cons_append, List.nil_append, List.cons.injEq, true_and] at same
          obtain ⟨rfl, same⟩ := same
          exact ⟨letter?_inj lettered lettered', same⟩
      | number => exact absurd (List.cons.inj (List.cons.inj same).2).1 (letter?_ne lettered)
      | plain other => exact absurd (List.cons.inj same).1.symm other
  | number =>
      cases shows' with
      | letter lettered =>
          exact absurd (List.cons.inj (List.cons.inj same).2).1.symm (letter?_ne lettered)
      | number =>
          simp only [List.cons_append, List.append_assoc, List.nil_append, List.cons.injEq,
            true_and] at same
          obtain ⟨digits, rest⟩ :=
            append_cons_inj (brace_notMem_toDigits _) (brace_notMem_toDigits _) same
          exact ⟨Char.toNat_inj.mp (toDigits_inj digits), rest⟩
      | plain other => exact absurd (List.cons.inj same).1.symm other
  | plain other =>
      cases shows' with
      | letter => exact absurd (List.cons.inj same).1 other
      | number => exact absurd (List.cons.inj same).1 other
      | plain => exact List.cons.inj same

/-! ## Texts -/

theorem flatMap_encodeChar_inj {cs ds rest rest' : List Char}
    (same : cs.flatMap encodeChar ++ '"' :: rest = ds.flatMap encodeChar ++ '"' :: rest') :
    cs = ds ∧ rest = rest' := by
  induction cs generalizing ds with
  | nil =>
      cases ds with
      | nil => exact ⟨rfl, (List.cons.inj same).2⟩
      | cons d ds =>
          rw [List.flatMap_cons, List.append_assoc] at same
          exact absurd same.symm (shown_encodeChar d).ne_quote
  | cons c cs ih =>
      cases ds with
      | nil =>
          rw [List.flatMap_cons, List.append_assoc] at same
          exact absurd same (shown_encodeChar c).ne_quote
      | cons d ds =>
          rw [List.flatMap_cons, List.append_assoc, List.flatMap_cons, List.append_assoc] at same
          obtain ⟨rfl, after⟩ := (shown_encodeChar c).inj (shown_encodeChar d) same
          obtain ⟨rfl, ends⟩ := ih after
          exact ⟨rfl, ends⟩

/-- Texts that begin with quotations are the same only if they quote the same and go on in the same
way. -/
theorem encode_append_inj {cs ds rest rest' : List Char}
    (same : encode cs ++ rest = encode ds ++ rest') : cs = ds ∧ rest = rest' := by
  simp only [encode, List.cons_append, List.append_assoc, List.nil_append] at same
  exact flatMap_encodeChar_inj (List.cons.inj same).2

end Accelerator.Quoted
