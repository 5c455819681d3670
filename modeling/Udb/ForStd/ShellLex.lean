import Mathlib

/-!
# Tokens of the shell command language

A command line is read from left to right. Outside quotations and expansions a blank
or a newline ends a word, and so does a character that starts an operator, which
grows as long as it stays one. Inside them nothing does; they nest, and `Nest` keeps
those that are open.

Here-documents and aliases are left out. A word keeps its quotation marks.

## Key results

- `tokens_append_blank`: a plain word and the blank behind it
- `exists_simpleCommand_iff`: the token sequences that are one simple command
-/

namespace ShellLex

/-! ## Characters -/

/-- What a character can stand inside of. -/
inductive Nest where
  | single
  | double
  | backquote
  | paren
  | brace
  deriving DecidableEq, Repr

/-- What stands in front of a character and has not been used up. -/
inductive Prev where
  | plain
  | backslash
  | dollar
  deriving DecidableEq, Repr

/-- `&`, `&&`, `|`, `||`, `;`, `;;`, `(` and `)` -/
def controlOperators : List (List UInt8) :=
  [[38], [38, 38], [124], [124, 124], [59], [59, 59], [40], [41]]

/-- `<`, `>`, `<<`, `>>`, `<<-`, `<&`, `>&`, `<>` and `>|` -/
def redirectOperators : List (List UInt8) :=
  [[60], [62], [60, 60], [62, 62], [60, 60, 45], [60, 38], [62, 38], [60, 62], [62, 124]]

def operators : List (List UInt8) := controlOperators ++ redirectOperators

def isBlank (c : UInt8) : Bool := c = 32 || c = 9

def isDigit (c : UInt8) : Bool := 48 ≤ c && c ≤ 57

/-- The character closes what is open. -/
def closes (inner : Option Nest) (c : UInt8) : Bool :=
  match inner with
  | some .single => c = 39
  | some .double => c = 34
  | some .backquote => c = 96
  | some .paren => c = 41
  | some .brace => c = 125
  | none => false

/-- What the character opens. -/
def opens (inner : Option Nest) (prev : Prev) (c : UInt8) : Option Nest :=
  if inner = some .backquote then none
  else if c = 96 then some .backquote
  else if c = 34 then some .double
  else if c = 39 then if inner = some .double then none else some .single
  else if c = 40 then if prev = .dollar ∨ inner = some .paren then some .paren else none
  else if c = 123 ∧ prev = .dollar then some .brace
  else none

/-- One character of a word. -/
def advance (nest : List Nest) (prev : Prev) (c : UInt8) : List Nest × Prev :=
  -- Nothing is special between single quotes but the second of them.
  if nest.head? = some .single then (if c = 39 then nest.tail else nest, .plain)
  else if prev = .backslash then (nest, .plain)
  else if c = 92 then (nest, .backslash)
  else if closes nest.head? c then (nest.tail, .plain)
  else if c = 36 then (nest, .dollar)
  else (((opens nest.head? prev c).toList ++ nest), .plain)

/-- The character ends a word that has nothing open. -/
def ends (prev : Prev) (c : UInt8) : Bool :=
  prev ≠ .backslash && !(prev = .dollar && c = 40) &&
    (isBlank c || c = 10 || operators.contains [c])

/-! ## Tokens -/

/-- A token. A newline is an operator. -/
inductive Token where
  | word (w : List UInt8)
  | redirect (op : List UInt8)
  | control (op : List UInt8)
  deriving DecidableEq, Repr

/-- The newline token. -/
def newline : Token := .control [10]

def opToken (op : List UInt8) : Token :=
  if redirectOperators.contains op then .redirect op else .control op

/-- The token that is being read. -/
inductive Cur where
  | none
  | comment
  | op (o : List UInt8)
  | word (w : List UInt8) (nest : List Nest) (prev : Prev)
  deriving DecidableEq, Repr

/-- The first character of a token, and the token it is already. -/
def start (c : UInt8) : List Token × Cur :=
  if isBlank c then ([], .none)
  else if c = 10 then ([newline], .none)
  else if c = 35 then ([], .comment)
  else if operators.contains [c] then ([], .op [c])
  else ([], .word [c] (advance [] .plain c).1 (advance [] .plain c).2)

/-- One character: the tokens that it completes, and what is being read after it. -/
def step : Cur → UInt8 → List Token × Cur
  | .none, c => start c
  | .comment, c => if c = 10 then start c else ([], .comment)
  | .op o, c =>
    if operators.contains (o ++ [c]) then ([], .op (o ++ [c]))
    else (opToken o :: (start c).1, (start c).2)
  | .word w nest prev, c =>
    if nest = [] ∧ ends prev c then
      -- Digits in front of a redirection belong to it.
      if (c = 60 ∨ c = 62) ∧ w.all isDigit then start c
      else (.word w :: (start c).1, (start c).2)
    else ([], .word (w ++ [c]) (advance nest prev c).1 (advance nest prev c).2)

/-- The end of the line: nothing may be open. -/
def finish : Cur → Option (List Token)
  | .none => some []
  | .comment => some []
  | .op o => some [opToken o]
  | .word w nest _ => if nest = [] then some [.word w] else Option.none

/-- The tokens of the rest of a line. -/
def lexFrom : Cur → List UInt8 → Option (List Token)
  | cur, [] => finish cur
  | cur, c :: l => (lexFrom (step cur c).2 l).map ((step cur c).1 ++ ·)

/-- The tokens of a line, if its quotations and expansions are all closed. -/
def tokens (line : List UInt8) : Option (List Token) := lexFrom .none line

/-! ## Plain words -/

/-- A character that neither ends a word nor changes what is open. -/
def Ordinary (c : UInt8) : Prop := ends .plain c = false ∧ advance [] .plain c = ([], .plain)

instance (c : UInt8) : Decidable (Ordinary c) := inferInstanceAs (Decidable (_ ∧ _))

section Words

variable {w rest : List UInt8} {c : UInt8}

/-- Blanks in front of a token are skipped. -/
theorem tokens_append_of_blank {skip : List UInt8} (h : ∀ c ∈ skip, c = 32) (l : List UInt8) :
    tokens (skip ++ l) = tokens l := by
  induction skip with
  | nil => rfl
  | cons c skip ih =>
    obtain rfl := h c List.mem_cons_self
    rw [← ih fun x hx => h x (List.mem_cons_of_mem _ hx)]
    show (tokens (skip ++ l)).map ([] ++ ·) = _
    cases tokens (skip ++ l) <;> rfl

/-- Reading a plain word. -/
theorem lexFrom_word (v : List UInt8) (hw : ∀ c ∈ w, Ordinary c) (l : List UInt8) :
    lexFrom (.word v [] .plain) (w ++ l) = lexFrom (.word (v ++ w) [] .plain) l := by
  -- Induction on what is left of the word, with what has been read of it generalised.
  induction w generalizing v with
  | nil => rw [List.nil_append, List.append_nil]
  | cons c w ih =>
    obtain ⟨hends, hadv⟩ := hw c List.mem_cons_self
    have hstep : step (.word v [] .plain) c = ([], .word (v ++ [c]) [] .plain) := by
      rw [step, if_neg (by rw [hends]; simp), hadv]
    rw [List.cons_append, lexFrom, hstep]
    dsimp only
    rw [ih (v ++ [c]) fun x hx => hw x (List.mem_cons_of_mem _ hx), List.append_assoc,
      List.singleton_append]
    cases lexFrom (.word (v ++ c :: w) [] .plain) l <;> rfl

/-- A word that starts a line. A hash sign would start a comment. -/
theorem tokens_word (hne : w ≠ []) (hhash : w.head? ≠ some 35) (hw : ∀ c ∈ w, Ordinary c)
    (l : List UInt8) : tokens (w ++ l) = lexFrom (.word w [] .plain) l := by
  obtain ⟨c, w, rfl⟩ := List.exists_cons_of_ne_nil hne
  obtain ⟨hends, hadv⟩ := hw c List.mem_cons_self
  have hc : isBlank c = false ∧ c ≠ 10 ∧ operators.contains [c] = false := by
    simpa [ends, and_assoc] using hends
  have hstart : step .none c = ([], .word [c] [] .plain) := by
    show start c = _
    unfold start
    rw [if_neg (by simp [hc.1]), if_neg hc.2.1, if_neg (by simpa using hhash),
      if_neg (Bool.eq_false_iff.mp hc.2.2), hadv]
  rw [tokens, List.cons_append, lexFrom, hstart]
  dsimp only
  rw [lexFrom_word [c] (fun x hx => hw x (List.mem_cons_of_mem _ hx)) l, List.singleton_append]
  cases lexFrom (.word (c :: w) [] .plain) l <;> rfl

/-- A plain word and the blank behind it. -/
theorem tokens_append_blank (hne : w ≠ []) (hhash : w.head? ≠ some 35)
    (hw : ∀ c ∈ w, Ordinary c) (rest : List UInt8) :
    tokens (w ++ 32 :: rest) = (tokens rest).map (.word w :: ·) := by
  rw [tokens_word hne hhash hw, lexFrom]
  have hstep : step (.word w [] .plain) 32 = ([.word w], .none) := by
    rw [step, if_pos ⟨rfl, rfl⟩, if_neg (by simp)]
    rfl
  rw [hstep]
  rfl

/-- What a plain word, but not a number, becomes with one more character at its end. -/
theorem tokens_append_singleton (hne : w ≠ []) (hhash : w.head? ≠ some 35)
    (hw : ∀ c ∈ w, Ordinary c) (hdigit : w.all isDigit = false) (c : UInt8) :
    tokens (w ++ [c]) =
      if isBlank c then some [.word w]
      else if c = 10 then some [.word w, newline]
      else if operators.contains [c] then some [.word w, opToken [c]]
      else if (advance [] .plain c).1 = [] then some [.word (w ++ [c])] else none := by
  rw [tokens_word hne hhash hw, lexFrom, lexFrom]
  by_cases hends : ends .plain c = true
  · -- The word ends here, and the character starts a token of its own or none.
    have hstep : step (.word w [] .plain) c = (.word w :: (start c).1, (start c).2) := by
      rw [step, if_pos ⟨rfl, hends⟩, if_neg (by simp [hdigit])]
    have hc : isBlank c = true ∨ c = 10 ∨ operators.contains [c] = true := by
      simpa [ends, or_assoc] using hends
    -- A hash sign does not end a word.
    have hno : c ≠ 35 := by
      rintro rfl
      exact absurd hends (by decide)
    rw [hstep]
    unfold start
    rw [if_neg hno]
    split
    · rfl
    · split
      · rfl
      · have hop : operators.contains [c] = true := by simp_all
        rw [if_pos hop, if_pos hop]
        rfl
  · -- It is part of the word, which ends with the line if the character opens nothing.
    have hstep : step (.word w [] .plain) c =
        ([], .word (w ++ [c]) (advance [] .plain c).1 (advance [] .plain c).2) := by
      rw [step, if_neg (by simp [hends])]
    have hc : isBlank c = false ∧ c ≠ 10 ∧ operators.contains [c] = false := by
      simpa [ends, and_assoc] using hends
    rw [hstep, if_neg (by simp [hc.1]), if_neg hc.2.1, if_neg (Bool.eq_false_iff.mp hc.2.2), finish]
    split <;> rfl

end Words

/-! ## Simple commands -/

/-- Words and redirections, each redirection with the word behind it. -/
inductive SimpleCommand : List Token → List (List UInt8) → Prop where
  | nil : SimpleCommand [] []
  | word {ts : List Token} {ws : List (List UInt8)} (w : List UInt8) (h : SimpleCommand ts ws) :
      SimpleCommand (.word w :: ts) (w :: ws)
  | redirect {ts : List Token} {ws : List (List UInt8)} (op f : List UInt8)
      (h : SimpleCommand ts ws) : SimpleCommand (.redirect op :: .word f :: ts) ws

/-- The line is one simple command with these words, with or without newlines at its end. -/
def IsSimple (line : List UInt8) (ws : List (List UInt8)) : Prop :=
  ∃ body k, tokens line = some (body ++ List.replicate k newline) ∧ SimpleCommand body ws

/-- `;`, `|`, `||`, `&` and `&&` -/
def joiners : List (List UInt8) := [[59], [124], [124, 124], [38], [38, 38]]

/-- An operator of the line stands between two commands. -/
def Joins (line : List UInt8) : Prop :=
  ∃ left op right, tokens line = some (left ++ .control op :: right) ∧ op ∈ joiners ∧
    (∃ w, .word w ∈ left) ∧ ∃ w, .word w ∈ right

section Simple

variable {ts body : List Token} {ws : List (List UInt8)}

/-- No operator joins the words of one command. -/
theorem SimpleCommand.control_notMem (h : SimpleCommand ts ws) (op : List UInt8) :
    .control op ∉ ts := by
  induction h with
  | nil => exact List.not_mem_nil
  | word w _ ih => simpa using ih
  | redirect o f _ ih => simpa using ih

/-- A redirection has the word behind it. -/
theorem SimpleCommand.redirect_word (h : SimpleCommand ts ws) {a b : List Token}
    {op : List UInt8} (hts : ts = a ++ .redirect op :: b) : ∃ f b', b = .word f :: b' := by
  -- Induction on the command. What stands in front of the redirection loses its first token, or
  -- the first two where these are a redirection themselves.
  induction h generalizing a with
  | nil => simp at hts
  | word w _ ih =>
    cases a with
    | nil => cases hts
    | cons t a => exact ih (List.cons.inj hts).2
  | redirect o f _ ih =>
    cases a with
    | nil => exact ⟨f, _, (List.cons.inj hts).2.symm⟩
    | cons t a =>
      cases a with
      | nil => cases (List.cons.inj (List.cons.inj hts).2).1
      | cons t' a => exact ih (List.cons.inj (List.cons.inj hts).2).2

/-- No control operator, and a word behind each redirection. -/
def Plain (ts : List Token) : Prop :=
  (∀ op, .control op ∉ ts) ∧
    ∀ a op b, ts = a ++ .redirect op :: b → ∃ f b', b = .word f :: b'

/-- The rest of plain tokens is plain. -/
theorem Plain.tail {t : Token} (h : Plain (t :: ts)) : Plain ts :=
  ⟨fun op hop => h.1 op (List.mem_cons_of_mem _ hop),
    fun a op b hts => h.2 (t :: a) op b (by rw [hts, List.cons_append])⟩

/-- Plain tokens are a simple command. -/
theorem exists_of_plain : ∀ ts : List Token, Plain ts → ∃ ws, SimpleCommand ts ws
  | [], _ => ⟨[], .nil⟩
  | .word w :: ts, h => by
    obtain ⟨ws, hws⟩ := exists_of_plain ts h.tail
    exact ⟨w :: ws, .word w hws⟩
  | .control op :: ts, h => absurd List.mem_cons_self (h.1 op)
  | [.redirect op], h => by
    obtain ⟨f, b', hb⟩ := h.2 [] op [] rfl
    cases hb
  | .redirect op :: .word f :: ts, h => by
    obtain ⟨ws, hws⟩ := exists_of_plain ts h.tail.tail
    exact ⟨ws, .redirect op f hws⟩
  | .redirect op :: .control o :: ts, h =>
    absurd (List.mem_cons_of_mem _ List.mem_cons_self) (h.1 o)
  | .redirect op :: .redirect o :: ts, h => by
    obtain ⟨f, b', hb⟩ := h.2 [] op (.redirect o :: ts) rfl
    cases hb

/-- The token sequences that are one simple command. -/
theorem exists_simpleCommand_iff : (∃ ws, SimpleCommand ts ws) ↔ Plain ts :=
  ⟨fun ⟨_, h⟩ => ⟨h.control_notMem, fun _ _ _ hts => h.redirect_word hts⟩, exists_of_plain ts⟩

/-- Joined commands are not one simple command. -/
theorem Joins.not_isSimple {line : List UInt8} (h : Joins line) : ¬ IsSimple line ws := by
  intro hs
  obtain ⟨left, op, right, htokens, hop, -, w, hw⟩ := h
  obtain ⟨body, k, htokens', hbody⟩ := hs
  have heq : left ++ .control op :: right = body ++ List.replicate k newline :=
    Option.some.inj (htokens.symm.trans htokens')
  -- The operator is in front of the newlines, because a word is behind it.
  rcases List.append_eq_append_iff.mp heq with ⟨mid, hbody', hmid⟩ | ⟨mid, hleft, hmid⟩
  · cases mid with
    | nil =>
      rw [List.nil_append] at hmid
      have hmem : Token.word w ∈ List.replicate k newline :=
        hmid ▸ List.mem_cons_of_mem _ hw
      cases List.eq_of_mem_replicate hmem
    | cons t mid =>
      obtain ⟨rfl, -⟩ := List.cons.inj hmid
      exact hbody.control_notMem op (by rw [hbody']; simp)
  · have hmem : Token.word w ∈ List.replicate k newline := by
      rw [hmid]
      exact List.mem_append_right _ (List.mem_cons_of_mem _ hw)
    cases List.eq_of_mem_replicate hmem

end Simple

section Lines

variable {line op w : List UInt8} {ts : List Token} {ws : List (List UInt8)}

/-- The first token of a simple command is its first word, if it is a word. -/
theorem IsSimple.head (h : IsSimple line ws) (ht : tokens line = some (.word w :: ts)) :
    ∃ ws', ws = w :: ws' := by
  obtain ⟨body, k, ht', hbody⟩ := h
  have heq := Option.some.inj (ht'.symm.trans ht)
  cases hbody with
  | nil =>
    -- A word is not one of the newlines.
    rw [List.nil_append] at heq
    have hmem : Token.word w ∈ List.replicate k newline := by
      rw [heq]
      exact List.mem_cons_self
    cases List.eq_of_mem_replicate hmem
  | word v _ =>
    obtain ⟨hv, -⟩ := List.cons.inj heq
    cases hv
    exact ⟨_, rfl⟩
  | redirect => cases (List.cons.inj heq).1

/-- An operator other than a newline does not end a simple command. -/
theorem not_isSimple_of_last (hop : op ∈ operators) (ht : tokens line = some (ts ++ [opToken op])) :
    ¬ IsSimple line ws := by
  intro h
  obtain ⟨body, k, ht', hbody⟩ := h
  have heq := Option.some.inj (ht'.symm.trans ht)
  have hne : opToken op ≠ newline := by
    unfold opToken
    split
    · exact fun h => by cases h
    · intro h
      obtain rfl := Token.control.inj h
      exact absurd hop (by decide)
  cases k with
  | succ k =>
    -- The last token would be a newline.
    have hlast := congrArg List.getLast? heq
    rw [List.replicate_succ', ← List.append_assoc, List.getLast?_concat,
      List.getLast?_concat] at hlast
    exact hne (Option.some.inj hlast).symm
  | zero =>
    rw [List.replicate_zero, List.append_nil] at heq
    unfold opToken at heq
    -- A redirection needs a word behind it, and the command has no other operator.
    split at heq
    · obtain ⟨f, b', hb⟩ := hbody.redirect_word heq
      cases hb
    · exact hbody.control_notMem op (by rw [heq]; simp)

end Lines

end ShellLex
