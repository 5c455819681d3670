import Udb.ForStd.Runs
import Udb.Native.Strtok

/-!
# The parser of command lines

`parse_commands_with_pipes` cuts a command line at bars and each piece at blanks, both
in place. A string in memory is written as what is in front of it, its bytes, its
terminator and what is behind it, so that every lemma says which of these a call
changes: the tokenizers change bytes of their own string only, and nothing moves.

## Key results

- `strtokRAt_cases`: one call, in memory and on the list of bytes
- `argvFrom_spec`, `pipesFrom_spec`: the two loops
- `parse_pipeline`: the parser agrees with its reference, and each store is in range
-/

namespace Udb.Spec

open CMem Runs Udb.Native

/-! ## Tokens are runs -/

section Tokens

variable {delim : UInt8} {str tok rest : Bytes}

/-- Behind the separators stands a token, and behind the token a separator or nothing. -/
theorem strtokR_eq_some (h : strtokR delim str = some (tok, rest)) :
    ∃ skip sep, str = skip ++ tok ++ sep ++ rest ∧ (∀ c ∈ skip, c = delim) ∧ tok ≠ [] ∧
      delim ∉ tok ∧ (sep = [delim] ∨ sep = [] ∧ rest = []) := by
  unfold strtokR at h
  dsimp only at h
  split at h
  · cases h
  · rename_i hne
    obtain ⟨rfl, rfl⟩ := Prod.mk.inj (Option.some.inj h)
    let r := str.dropWhile (· = delim)
    have hskip : ∀ c ∈ str.takeWhile (· = delim), c = delim := by
      intro c hc
      simpa using List.mem_takeWhile_imp hc
    have htok : delim ∉ r.takeWhile (· ≠ delim) := by
      intro hmem
      simpa using List.mem_takeWhile_imp hmem
    have hstart : r.takeWhile (· ≠ delim) ≠ [] := by
      -- What is left starts with something else than a separator.
      intro hnil
      obtain ⟨x, xs, hr⟩ := List.exists_cons_of_ne_nil hne
      have hx : x ≠ delim := by
        have hhead := List.head_dropWhile_not (· = delim) hne
        simp only [hr, List.head_cons, decide_eq_false_iff_not] at hhead
        exact hhead
      rw [show r = x :: xs from hr, List.takeWhile_cons_of_pos (by simpa using hx)] at hnil
      cases hnil
    have hsplit : str = str.takeWhile (· = delim) ++ r.takeWhile (· ≠ delim) ++
        r.dropWhile (· ≠ delim) := by
      rw [List.append_assoc, List.takeWhile_append_dropWhile, List.takeWhile_append_dropWhile]
    cases htail : r.dropWhile (· ≠ delim) with
    | nil =>
      rw [htail] at hsplit
      exact ⟨_, [], by simpa using hsplit, hskip, hstart, htok, .inr ⟨rfl, rfl⟩⟩
    | cons x xs =>
      have hx : x = delim := by
        have hne' : r.dropWhile (· ≠ delim) ≠ [] := by
          rw [htail]
          exact List.cons_ne_nil x xs
        have hhead := List.head_dropWhile_not (· ≠ delim) hne'
        simp only [htail, List.head_cons, decide_eq_false_iff_not, not_not] at hhead
        exact hhead
      rw [htail, hx] at hsplit
      exact ⟨_, [delim], by simpa using hsplit, hskip, hstart, htok, .inl rfl⟩

/-- A token is the first run. -/
theorem runs_eq_of_strtokR : runs delim str =
    match strtokR delim str with
    | none => []
    | some (tok, rest) => tok :: runs delim rest := by
  split
  · rename_i h
    -- Nothing but delimiters.
    unfold strtokR at h
    dsimp only at h
    split at h
    · rename_i hnil
      rw [← runs_dropWhile, hnil, runs_nil]
    · cases h
  · rename_i tok rest h
    -- A token stands between delimiters, or in front of the end.
    obtain ⟨skip, sep, rfl, hskip, hne, hfree, hsep⟩ := strtokR_eq_some h
    rw [List.append_assoc, List.append_assoc, runs_append_of_forall hskip]
    rcases hsep with rfl | ⟨rfl, rfl⟩
    · rw [List.singleton_append, runs_append_cons hne hfree]
    · rw [List.append_nil, List.append_nil, runs_of_not_mem hfree, if_neg hne, runs_nil]

/-- So a loop of calls finds the first runs. -/
private theorem strtokLoop_eq (delim : UInt8) (fuel : Nat) (str : Bytes) :
    strtokLoop delim fuel str = (runs delim str).take fuel := by
  induction fuel generalizing str with
  | zero => rfl
  | succ fuel ih =>
    rw [runs_eq_of_strtokR, strtokLoop]
    cases strtokR delim str with
    | none => rfl
    | some p => simp only [List.take_succ_cons, ih]

end Tokens

/-! ## One call in memory -/

section Memory

variable {delim c : UInt8} {pre skip tok behind str rest post : Bytes}

/-- Up to the first byte that is not of the kind. -/
private theorem takeWhile_append_cons {p : UInt8 → Bool} {a b : Bytes} {x : UInt8}
    (ha : ∀ y ∈ a, p y = true) (hx : p x = false) : (a ++ x :: b).takeWhile p = a := by
  rw [List.takeWhile_append_of_pos ha, List.takeWhile_cons_of_neg (by simpa using hx),
    List.append_nil]

/-- The byte at the end of a part. -/
private theorem byteAt_append (a b : Bytes) (x : UInt8) : byteAt
    (a ++ x :: b) a.length = .ok x := by
  unfold byteAt
  rw [List.getElem?_append_right (Nat.le_refl _), Nat.sub_self, List.getElem?_cons_zero]

/-- `strspn` counts the delimiters in front. -/
private theorem strspn_append (hskip : ∀ y ∈ skip, y = delim) (hc : c ≠ delim) :
    strspn (pre ++ skip ++ c :: behind) pre.length delim = skip.length := by
  unfold strspn
  rw [List.append_assoc, List.drop_left,
    takeWhile_append_cons (fun y hy => by simpa using hskip y hy) (by simpa using hc)]

/-- `strcspn` counts up to the delimiter or the end. -/
private theorem strcspn_append (hfree : delim ∉ tok) (h0 : (0 : UInt8) ∉ tok)
    (hc : c = delim ∨ c = 0) :
    strcspn (pre ++ tok ++ c :: behind) pre.length delim = tok.length := by
  unfold strcspn
  rw [List.append_assoc, List.drop_left, takeWhile_append_cons]
  · intro y hy
    have hy₁ : y ≠ delim := fun h => hfree (h ▸ hy)
    have hy₂ : y ≠ 0 := fun h => h0 (h ▸ hy)
    simp [hy₁, hy₂]
  · rcases hc with rfl | rfl <;> simp

/-- Only separators up to the terminator: there is no token. -/
private theorem strtokRAt_none (hd : delim ≠ 0) (h : strtokR delim str = none) :
    strtokRAt delim (pre ++ str ++ 0 :: post) pre.length =
      .ok (none, (pre ++ str).length, pre ++ str ++ 0 :: post) := by
  have hall : ∀ y ∈ str, y = delim := by
    rw [← runs_eq_nil_iff, runs_eq_of_strtokR, h]
  unfold strtokRAt
  dsimp only
  rw [strspn_append hall (Ne.symm hd), ← List.length_append, byteAt_append, ok_bind]
  rfl

/-- A token, and the separator or the terminator behind it. -/
private theorem strtokRAt_token (hskip : ∀ y ∈ skip, y = delim) (htok : tok ≠ [])
    (hfree : delim ∉ tok)
    (h0 : (0 : UInt8) ∉ tok) (hc : c = delim ∨ c = 0) :
    strtokRAt delim (pre ++ skip ++ tok ++ c :: behind) pre.length =
      if c = 0 then .ok (some (pre ++ skip).length, (pre ++ skip ++ tok).length,
        pre ++ skip ++ tok ++ c :: behind)
      else .ok (some (pre ++ skip).length, (pre ++ skip ++ tok).length + 1,
        pre ++ skip ++ tok ++ 0 :: behind) := by
  obtain ⟨x, tok', rfl⟩ := List.exists_cons_of_ne_nil htok
  -- The token begins with the first byte that is no delimiter.
  have hx : x ≠ delim := fun h => hfree (h ▸ List.mem_cons_self)
  have hx0 : x ≠ 0 := fun h => h0 (h ▸ List.mem_cons_self)
  have hstart : pre ++ skip ++ x :: tok' ++ c :: behind =
      pre ++ skip ++ x :: (tok' ++ c :: behind) := by
    rw [List.append_assoc (pre ++ skip), List.cons_append]
  unfold strtokRAt
  dsimp only
  rw [hstart, strspn_append hskip hx, ← List.length_append, byteAt_append, ok_bind, if_neg hx0,
    ← hstart, strcspn_append hfree h0 hc, ← List.length_append, byteAt_append, ok_bind]
  split
  · -- It ends where the string does, and nothing is stored.
    rfl
  · -- Its delimiter is overwritten with a NUL.
    rw [List.set_append_right _ _ (Nat.le_refl _), Nat.sub_self, List.set_cons_zero, pure_eq_ok]

/-- One call, on a string that stands between `pre` and its terminator: the token it returns is
    the one that the list of bytes has, and only the separator behind it is overwritten. -/
private theorem strtokRAt_some (pre post : Bytes) (hd : delim ≠ 0) (h0 : (0 : UInt8) ∉ str)
    (h : strtokR delim str = some (tok, rest)) :
    ∃ skip sep, strtokRAt delim (pre ++ str ++ 0 :: post) pre.length =
        .ok (some (pre ++ skip).length, (pre ++ skip ++ tok ++ sep).length,
          pre ++ skip ++ tok ++ sep ++ rest ++ 0 :: post) ∧
      (sep = [0] ∨ sep = [] ∧ rest = []) ∧
      (skip ++ tok ++ sep ++ rest).length = str.length ∧
      (0 : UInt8) ∉ tok ∧ (0 : UInt8) ∉ rest := by
  obtain ⟨skip, sep, rfl, hskip, htok, hfree, hsep⟩ := strtokR_eq_some h
  simp only [List.mem_append, not_or] at h0
  obtain ⟨⟨⟨-, htok0⟩, -⟩, hrest0⟩ := h0
  rcases hsep with rfl | ⟨rfl, rfl⟩
  · -- A separator: it becomes the token's terminator.
    have hmem : pre ++ (skip ++ tok ++ [delim] ++ rest) ++ 0 :: post =
        pre ++ skip ++ tok ++ delim :: (rest ++ 0 :: post) := by simp
    refine ⟨skip, [0], ?_, .inl rfl, by simp, htok0, hrest0⟩
    rw [hmem, strtokRAt_token hskip htok hfree htok0 (.inl rfl), if_neg hd]
    simp only [List.length_append, List.length_singleton, Nat.add_assoc, List.append_assoc,
      List.cons_append, List.nil_append]
  · -- The end of the string, which has its terminator already.
    have hmem : pre ++ (skip ++ tok ++ [] ++ []) ++ 0 :: post =
        pre ++ skip ++ tok ++ 0 :: post := by simp
    refine ⟨skip, [], ?_, .inr ⟨rfl, rfl⟩, rfl, htok0, hrest0⟩
    rw [hmem, strtokRAt_token hskip htok hfree htok0 (.inr rfl), if_pos rfl]
    simp

end Memory

/-! ## Pointers into what is parsed -/

/-- In every memory that starts with `front`, a string is found at `p`. -/
def PointsTo (front : Bytes) (p : Nat) (w : Bytes) : Prop :=
  ∀ post, cstrAt (front ++ post) p = .ok w

/-- In every memory that starts with `front`, a parsed command is found at its pointers. -/
def Parsed (front : Bytes) (c : CommandPtr) (cmd : Command) : Prop :=
  ∀ post, c.load (front ++ post) = .ok cmd

section Pointers

variable {front pre tok : Bytes}

/-- A string with its end is pointed to. -/
theorem PointsTo.intro (h0 : (0 : UInt8) ∉ tok) (pre : Bytes) :
    PointsTo (pre ++ tok ++ [0]) pre.length tok := by
  intro post
  rw [List.append_assoc (pre ++ tok), List.singleton_append]
  exact cstrAt_append h0 pre post

/-- More memory behind it changes nothing. -/
theorem PointsTo.append {p : Nat} {w : Bytes} (h : PointsTo front p w) (x : Bytes) :
    PointsTo (front ++ x) p w := by
  intro post
  rw [List.append_assoc]
  exact h (x ++ post)

/-- Nor does it for a command that was parsed. -/
theorem Parsed.append {c : CommandPtr} {cmd : Command} (h : Parsed front c cmd) (x : Bytes) :
    Parsed (front ++ x) c cmd := by
  intro post
  rw [List.append_assoc]
  exact h (x ++ post)

/-- A loop whose turns all succeed. -/
private theorem mapM_of_forall₂ {α β : Type} {f : α → Except Fault β} {xs : List α} {ys : List β}
    (h : List.Forall₂ (fun x y => f x = .ok y) xs ys) : xs.mapM f = .ok ys := by
  induction h with
  | nil => rfl
  | cons hx _ ih => rw [List.mapM_cons, hx, ok_bind, ih, ok_bind, pure_eq_ok]

/-- A command is found when its arguments are. -/
private theorem Parsed.of_argv {argv : List Nat} {words : List Bytes}
    (h : List.Forall₂ (PointsTo front) argv words) :
    Parsed front ⟨argv.length, argv.head?, argv⟩ ⟨words.length, words.head?, words⟩ := by
  intro post
  -- Each pointer of `argv` shows its word, whatever is stored behind.
  have hargv : argv.mapM (cstrAt (front ++ post)) = .ok words :=
    mapM_of_forall₂ (h.imp fun _ _ hp => hp post)
  have hlen := h.length_eq
  unfold CommandPtr.load
  dsimp only
  rw [hargv, ok_bind, hlen]
  cases h with
  | nil => rfl
  | cons hp _ =>
    show (cstrAt (front ++ post) _ >>= _) = _
    rw [hp post]
    rfl

end Pointers

/-! ## The loops -/

section Loops

variable {pre str post : Bytes}

/-- What `sep` and the string's terminator are in front of starts with a terminator. -/
private theorem exists_terminator {sep rest : Bytes} (hsep : sep = [0] ∨ sep = [] ∧ rest = [])
    (post : Bytes) : ∃ q, sep ++ rest ++ 0 :: post = 0 :: q := by
  rcases hsep with rfl | ⟨rfl, rfl⟩
  · exact ⟨rest ++ 0 :: post, by simp⟩
  · exact ⟨post, rfl⟩

/-- The same when `rest` has been parsed, which changes none of its bytes' places. -/
private theorem exists_terminator_of_length {sep rest rest' : Bytes}
    (hsep : sep = [0] ∨ sep = [] ∧ rest = []) (hlen : rest'.length = rest.length) :
    ∃ q, sep ++ rest' ++ [0] = 0 :: q := by
  refine exists_terminator (hsep.imp_right fun hend => ⟨hend.1, ?_⟩) []
  rw [hend.2] at hlen
  exact List.eq_nil_of_length_eq_zero hlen

/-- A turn of the loop is a call that starts where the one before has stopped. -/
private theorem argvLoop_succ (left token save : Nat) (mem : Bytes) :
    argvLoop (left + 1) (some token) save mem =
      argvFrom left mem save >>= fun p => pure (token :: p.1, p.2) := by
  rw [argvLoop, argvFrom]
  cases strtokRAt 32 mem save with
  | error e => rfl
  | ok p => rfl

/-- The arguments of a command, as long as there is room for them: the loop stays in its string,
    and its pointers find the words whatever becomes of the memory behind. -/
theorem argvFrom_spec (pre post : Bytes) (left : Nat) (h0 : (0 : UInt8) ∉ str) :
    ∃ argv str', argvFrom left (pre ++ str ++ 0 :: post) pre.length =
        .ok (argv, pre ++ str' ++ 0 :: post) ∧
      str'.length = str.length ∧
      List.Forall₂ (PointsTo (pre ++ str' ++ [0])) argv (strtokLoop 32 left str) := by
  -- Induction on the room that is left.
  induction left generalizing pre str with
  | zero =>
    cases h : strtokR 32 str with
    | none =>
      refine ⟨[], str, ?_, rfl, .nil⟩
      rw [argvFrom, strtokRAt_none (by decide) h]
      rfl
    | some p =>
      obtain ⟨tok, rest⟩ := p
      obtain ⟨skip, sep, hcall, -, hlen, -⟩ := strtokRAt_some pre post (by decide) h0 h
      refine ⟨[], skip ++ tok ++ sep ++ rest, ?_, hlen, .nil⟩
      -- The call has been made, but there is no room for what it found.
      rw [argvFrom, hcall]
      simp [argvLoop]
  | succ left ih =>
    cases h : strtokR 32 str with
    | none =>
      refine ⟨[], str, ?_, rfl, ?_⟩
      · rw [argvFrom, strtokRAt_none (by decide) h]
        rfl
      · rw [strtokLoop, h]
        exact .nil
    | some p =>
      obtain ⟨tok, rest⟩ := p
      obtain ⟨skip, sep, hcall, hsep, hlen, htok0, hrest0⟩ := strtokRAt_some pre post (by decide)
        h0 h
      obtain ⟨argv, rest', hrun, hlen', hargv⟩ := ih (pre ++ skip ++ tok ++ sep) hrest0
      refine ⟨(pre ++ skip).length :: argv, skip ++ tok ++ sep ++ rest', ?_, ?_, ?_⟩
      · rw [argvFrom, hcall, ok_bind]
        dsimp only
        rw [argvLoop_succ, hrun]
        simp
      · simp only [List.length_append] at hlen ⊢
        omega
      · rw [strtokLoop, h]
        have hfront : pre ++ (skip ++ tok ++ sep ++ rest') ++ [0] =
            pre ++ skip ++ tok ++ sep ++ rest' ++ [0] := by simp
        rw [hfront]
        refine .cons ?_ hargv
        -- The token's terminator is the overwritten separator or that of the string.
        obtain ⟨q, hq⟩ := exists_terminator_of_length hsep hlen'
        have hpoint := (PointsTo.intro htok0 (pre ++ skip)).append q
        rwa [List.append_assoc _ [0], List.singleton_append, ← hq, ← List.append_assoc,
          ← List.append_assoc] at hpoint

/-- A whole command, on a string that holds it: its pointers find what is on the list. -/
private theorem parseCommandAt_spec (pre post : Bytes) (h0 : (0 : UInt8) ∉ str) :
    ∃ c str', parseCommandAt (pre ++ str ++ 0 :: post) pre.length =
        .ok (c, pre ++ str' ++ 0 :: post) ∧
      str'.length = str.length ∧ Parsed (pre ++ str' ++ [0]) c (parseCommand str) := by
  obtain ⟨argv, str', hrun, hlen, hargv⟩ := argvFrom_spec pre post argMaxCount h0
  refine ⟨⟨argv.length, argv.head?, argv⟩, str', ?_, hlen, Parsed.of_argv hargv⟩
  rw [parseCommandAt, hrun]
  rfl

/-- One turn of the loop over the pipes. -/
private theorem pipeLoop_succ (left i : Nat) (slots : List (Option CommandPtr)) (token save : Nat)
    (mem : Bytes) : pipeLoop (left + 1) i slots (some token) save mem =
      parseCommandAt mem token >>= fun p => storeSlot slots i p.1 >>= fun slots =>
        pipesFrom left (i + 1) slots p.2 save := by
  rw [pipeLoop]
  cases parseCommandAt mem token with
  | error e => rfl
  | ok p => rfl

/-- The next free slot takes a command. -/
private theorem storeSlot_next (stored : List CommandPtr) (left : Nat) (c : CommandPtr) :
    storeSlot (stored.map some ++ List.replicate (left + 1) none) stored.length c =
      .ok ((stored ++ [c]).map some ++ List.replicate left none) := by
  unfold storeSlot
  rw [if_pos (by simp), List.set_append_right _ _ (by simp), List.length_map, Nat.sub_self,
    List.replicate_succ, List.set_cons_zero]
  simp

/-- The commands of a line, as long as there are free slots: each is stored in the next one, and
    parsing it leaves the rest of the line as it was. -/
theorem pipesFrom_spec (pre post : Bytes) (left : Nat) (stored : List CommandPtr)
    (h0 : (0 : UInt8) ∉ str) :
    ∃ cs str', pipesFrom left stored.length (stored.map some ++ List.replicate left none)
        (pre ++ str ++ 0 :: post) pre.length =
          .ok ((stored ++ cs).map some ++ List.replicate (left - cs.length) none,
            pre ++ str' ++ 0 :: post) ∧
      str'.length = str.length ∧
      List.Forall₂ (Parsed (pre ++ str' ++ [0])) cs
        ((strtokLoop 124 left str).map parseCommand) := by
  -- Induction on the free slots.
  induction left generalizing pre str stored with
  | zero =>
    cases h : strtokR 124 str with
    | none =>
      refine ⟨[], str, ?_, rfl, .nil⟩
      rw [pipesFrom, strtokRAt_none (by decide) h]
      simp [pipeLoop]
    | some p =>
      obtain ⟨tok, rest⟩ := p
      obtain ⟨skip, sep, hcall, -, hlen, -⟩ := strtokRAt_some pre post (by decide) h0 h
      refine ⟨[], skip ++ tok ++ sep ++ rest, ?_, hlen, .nil⟩
      rw [pipesFrom, hcall]
      simp [pipeLoop]
  | succ left ih =>
    cases h : strtokR 124 str with
    | none =>
      refine ⟨[], str, ?_, rfl, ?_⟩
      · rw [pipesFrom, strtokRAt_none (by decide) h]
        simp [pipeLoop]
      · rw [strtokLoop, h]
        exact .nil
    | some p =>
      obtain ⟨tok, rest⟩ := p
      obtain ⟨skip, sep, hcall, hsep, hlen, htok0, hrest0⟩ := strtokRAt_some pre post (by decide)
        h0 h
      -- The command's own string ends at its terminator, and all else is behind it.
      obtain ⟨q, hq⟩ := exists_terminator hsep post
      obtain ⟨c, tok', hparse, htok', hc⟩ := parseCommandAt_spec (pre ++ skip) q htok0
      obtain ⟨cs, rest', hrun, hlen', hcs⟩ := ih (pre ++ skip ++ tok' ++ sep)
        (stored ++ [c]) hrest0
      have hmem : ∀ w : Bytes, pre ++ skip ++ w ++ sep ++ rest ++ 0 :: post =
          pre ++ skip ++ w ++ 0 :: q := by
        intro w
        rw [List.append_assoc _ sep, List.append_assoc _ (sep ++ rest), hq]
      have hsave : (pre ++ skip ++ tok ++ sep).length = (pre ++ skip ++ tok' ++ sep).length := by
        simp only [List.length_append, htok']
      refine ⟨c :: cs, skip ++ tok' ++ sep ++ rest', ?_, ?_, ?_⟩
      · rw [pipesFrom, hcall, ok_bind]
        dsimp only
        rw [pipeLoop_succ, hmem, hparse, ok_bind, storeSlot_next, ok_bind, ← hmem, hsave]
        rw [List.length_append, List.length_singleton] at hrun
        rw [hrun, List.length_cons, Nat.add_sub_add_right]
        simp
      · simp only [List.length_append] at hlen ⊢
        omega
      · rw [strtokLoop, h]
        have hfront : pre ++ (skip ++ tok' ++ sep ++ rest') ++ [0] =
            pre ++ skip ++ tok' ++ sep ++ rest' ++ [0] := by simp
        rw [hfront]
        refine .cons ?_ hcs
        -- The command is still found at its pointers when the pieces behind it are parsed.
        obtain ⟨q', hq'⟩ := exists_terminator_of_length hsep hlen'
        have hparsed := hc.append q'
        rwa [List.append_assoc _ [0], List.singleton_append, ← hq', ← List.append_assoc,
          ← List.append_assoc] at hparsed

end Loops

/-! ## The parser and its reference -/

/-- The command of one piece: its first words. -/
def commandOf (piece : Bytes) : Command :=
  let words := (runs 32 piece).take argMaxCount
  ⟨words.length, words.head?, words⟩

/-- What a line is parsed to: a slot for every bar and one more, the commands of the non-empty
    pieces in the first of them. -/
def pipelineOf (input : Bytes) : Commands :=
  ⟨input.count 124 + 1, (runs 124 input).map (some ∘ commandOf) ++
    List.replicate (input.count 124 + 1 - (runs 124 input).length) none⟩

/-- One command is parsed as the reference says. -/
private theorem parseCommand_eq (input : Bytes) : parseCommand input = commandOf input := by
  unfold parseCommand commandOf
  rw [strtokLoop_eq]

/-- There is a slot for every piece. -/
private theorem strtokLoop_pipes (input : Bytes) :
    strtokLoop 124 (input.count 124 + 1) input = runs 124 input := by
  rw [strtokLoop_eq, List.take_of_length_le length_runs_le]

/-- So is a pipeline. -/
theorem parseCommandsWithPipes_eq (input : Bytes) :
    parseCommandsWithPipes input = pipelineOf input := by
  have hcommand : parseCommand = commandOf := funext parseCommand_eq
  unfold parseCommandsWithPipes pipelineOf
  dsimp only
  rw [strtokLoop_pipes, hcommand]

/-- What the slots find, command by command. -/
private theorem CommandsPtr.load_of_parsed {front : Bytes} {cs : List CommandPtr}
    {cmds : List Command}
    (h : List.Forall₂ (Parsed front) cs cmds) (count free : Nat) (post : Bytes) :
    (CommandsPtr.mk count (cs.map some ++ List.replicate free none)).load (front ++ post) =
      .ok ⟨count, cmds.map some ++ List.replicate free none⟩ := by
  have hslots : (cs.map some ++ List.replicate free none).mapM (loadSlot (front ++ post)) =
      .ok (cmds.map some ++ List.replicate free none) := by
    apply mapM_of_forall₂
    apply List.rel_append
    · -- The slots that were filled.
      rw [List.forall₂_map_left_iff, List.forall₂_map_right_iff]
      refine h.imp fun c cmd hc => ?_
      rw [loadSlot, hc post]
      rfl
    · -- The slots that were not are null.
      induction free with
      | zero => exact .nil
      | succ n ih => exact .cons rfl ih
  unfold CommandsPtr.load
  dsimp only
  rw [hslots]
  rfl

/-- The parser returns: the slots for the pieces are filled, in order, and the rest are null. -/
theorem parseCommandsWithPipesAt_spec {input : Bytes} (h0 : (0 : UInt8) ∉ input)
    (behind : Bytes) :
    ∃ cs str', parseCommandsWithPipesAt (input ++ 0 :: behind) 0 =
        .ok (⟨input.count 124 + 1,
          cs.map some ++ List.replicate (input.count 124 + 1 - cs.length) none⟩,
            str' ++ 0 :: behind) ∧
      List.Forall₂ (Parsed (str' ++ [0])) cs ((runs 124 input).map commandOf) := by
  obtain ⟨cs, str', hrun, -, hcs⟩ := pipesFrom_spec [] behind (input.count 124 + 1) [] h0
  rw [strtokLoop_pipes, funext parseCommand_eq] at hcs
  have hstr : cstrAt (input ++ 0 :: behind) 0 = .ok input := cstrAt_append h0 [] behind
  refine ⟨cs, str', ?_, hcs⟩
  rw [parseCommandsWithPipesAt, hstr, ok_bind]
  dsimp only
  exact bind_eq_ok.mpr ⟨_, hrun, rfl⟩

/-- The parser agrees with its reference: on every string, with anything behind it in memory, it
    returns, each of its accesses and stores is in range, and its slots find, in order, one command
    for each maximal non-empty run of bytes other than a bar. Such a command has as arguments the
    first 256 maximal non-empty runs of bytes other than a blank, and the first of them as its
    name, if there is one; the slots are enough for all of them, and the rest stay null. -/
theorem parse_pipeline (input : CString) (behind : Bytes) :
    ∃ c mem, parseCommandsWithPipesAt (input.bytes ++ 0 :: behind) 0 = .ok (c, mem) ∧
      c.load mem = .ok (pipelineOf input.bytes) ∧
      c.cmds.length = input.bytes.count 124 + 1 ∧
      (runs 124 input.bytes).length ≤ input.bytes.count 124 + 1 := by
  obtain ⟨cs, str', hparse, hcs⟩ := parseCommandsWithPipesAt_spec input.nulFree behind
  -- One slot was allocated for each bar, and one more.
  have hcount := hcs.length_eq
  rw [List.length_map] at hcount
  have hle : (runs 124 input.bytes).length ≤ input.bytes.count 124 + 1 := length_runs_le
  refine ⟨_, _, hparse, ?_, ?_, hle⟩
  · have hload := CommandsPtr.load_of_parsed hcs (input.bytes.count 124 + 1)
      (input.bytes.count 124 + 1 - cs.length) behind
    rw [List.append_assoc, List.singleton_append, List.map_map] at hload
    rw [hload, hcount]
    rfl
  · rw [List.length_append, List.length_map, List.length_replicate, hcount]
    omega

end Udb.Spec
