import Udb.ForStd.CMem
import Udb.ForStd.Utf8

/-!
# A terminal

A terminal reads bytes: characters in UTF-8, new lines, and control sequences, which
choose the colours, go to the first line, or erase what is behind the cursor. Other
control sequences and most control characters do nothing here. The terminal has no
margins: lines have no right end at which they wrap, and the screen has no last line
behind which it scrolls.

## Key results

- `run_color`: a control sequence that chooses a colour
- `run_utf8`: a shortest sequence shows its character
- `run_clear`: going home and erasing leaves an empty screen
-/

namespace Terminal

open CMem Utf8

/-- The colours of a character, or the terminal's own. -/
structure Pen where
  fg : Option (Fin 3 → Nat)
  bg : Option (Fin 3 → Nat)
  deriving DecidableEq

def Pen.plain : Pen := ⟨none, none⟩

/-- A character on the screen. -/
structure Cell where
  code : Nat
  pen : Pen
  deriving DecidableEq

/-- A place that nothing was printed to. -/
def Cell.blank : Cell := ⟨0x20, .plain⟩

/-- The lines above the cursor, what is left and right of it, and the lines below. -/
structure Screen where
  above : List (List Cell)
  line : List Cell
  right : List Cell
  below : List (List Cell)

/-- A line that is printed over another one. -/
def overLine (new old : List Cell) : List Cell := new ++ old.drop new.length

/-- Lines that are printed over others. -/
def overLines : (new old : List (List Cell)) → List (List Cell)
  | [], _ => []
  | row :: rows, old => overLine row (old.headD []) :: overLines rows old.tail

namespace Screen

def put (s : Screen) (c : Cell) : Screen :=
  { s with line := s.line ++ [c], right := s.right.drop 1 }

def newLine (s : Screen) : Screen :=
  ⟨s.above ++ [s.line ++ s.right], [], s.below.headD [], s.below.tail⟩

/-- To the next column that eight divides. -/
def tab (s : Screen) : Screen :=
  let n := 8 - s.line.length % 8
  { s with
    line := s.line ++ (s.right.take n ++ List.replicate (n - s.right.length) .blank)
    right := s.right.drop n }

/-- All lines. -/
def rows (s : Screen) : List (List Cell) := s.above ++ (s.line ++ s.right) :: s.below

def home (s : Screen) : Screen := ⟨[], [], s.rows.headD [], s.rows.tail⟩

def erase (s : Screen) : Screen := { s with right := [], below := [] }

/-- The cursor is behind `line`, which has been printed over the first of the `old` lines. -/
def within (above : List (List Cell)) (line : List Cell) (old : List (List Cell)) : Screen :=
  ⟨above, line, (old.headD []).drop line.length, old.tail⟩

variable {above old : List (List Cell)} {line : List Cell}

@[simp] theorem put_within (c : Cell) :
    (within above line old).put c = within above (line ++ [c]) old := by
  simp [within, put]

@[simp] theorem newLine_within :
    (within above line old).newLine =
      within (above ++ [overLine line (old.headD [])]) [] old.tail := by
  simp [within, newLine, overLine]

/-- The lines of the screen, where nothing is behind the cursor. -/
theorem rows_within :
    (within above line old).rows = above ++ overLine line (old.headD []) :: old.tail := rfl

end Screen

/-- A line that is not shorter than the old one replaces it. -/
theorem overLine_eq_self {new old : List Cell} (h : old.length ≤ new.length) :
    overLine new old = new := by
  rw [overLine, List.drop_eq_nil_of_le h, List.append_nil]

/-- So do lines that are all as long as the longest of the old ones. -/
theorem overLines_eq_self {new old : List (List Cell)} {a : Nat}
    (hnew : ∀ row ∈ new, row.length = a) (hold : ∀ row ∈ old.take new.length, row.length ≤ a) :
    overLines new old = new := by
  induction new generalizing old with
  | nil => rfl
  | cons row new ih =>
    obtain ⟨hrow, hnew⟩ := List.forall_mem_cons.mp hnew
    cases old with
    -- No line stood here: the new one goes into an empty place.
    | nil => rw [overLines, List.tail_nil, ih hnew (by simp), overLine_eq_self (by simp)]
    | cons row' old =>
      -- A line stood here, and the new one is as wide as it.
      rw [List.length_cons, List.take_succ_cons] at hold
      obtain ⟨hrow', hold⟩ := List.forall_mem_cons.mp hold
      rw [overLines, List.tail_cons, ih hnew hold, List.headD_cons,
        overLine_eq_self (by omega)]

/-- Where the terminal stands in what it reads. -/
inductive Mode where
  | ground
  | escape
  /-- In a control sequence, with its parameters. -/
  | control (params : List Nat) (cur : Nat)
  /-- In a sequence of this form, with the bits so far. -/
  | utf8 (form : Form) (left : Nat) (bits : Nat)

structure Term where
  mode : Mode
  pen : Pen
  screen : Screen

/-- What a character that is not in UTF-8 is shown as. -/
def replacement : Nat := 0xfffd

/-- The parameters of `m`. -/
def sgr : List Nat → Pen → Pen
  | 0 :: ps, _ => sgr ps .plain
  | 38 :: 2 :: r :: g :: b :: ps, p => sgr ps { p with fg := some ![r, g, b] }
  | 48 :: 2 :: r :: g :: b :: ps, p => sgr ps { p with bg := some ![r, g, b] }
  | _ :: ps, p => sgr ps p
  | [], p => p

namespace Term

def put (t : Term) (code : Nat) : Term :=
  { t with mode := .ground, screen := t.screen.put ⟨code, t.pen⟩ }

/-- The end of a control sequence. -/
def finish (t : Term) (params : List Nat) (final : UInt8) : Term :=
  if final = 109 then { t with mode := .ground, pen := sgr params t.pen }
  else if final = 72 ∧ params.all (· ≤ 1) then { t with mode := .ground, screen := t.screen.home }
  else if final = 74 ∧ params = [0] then { t with mode := .ground, screen := t.screen.erase }
  else { t with mode := .ground }

/-- A byte outside all sequences. -/
def start (t : Term) (b : UInt8) : Term :=
  if b = 27 then { t with mode := .escape }
  else if b = 10 then { t with mode := .ground, screen := t.screen.newLine }
  else if b = 9 then { t with mode := .ground, screen := t.screen.tab }
  else if b < 32 ∨ b = 127 then { t with mode := .ground }
  else if b < 0x80 then t.put b.toNat
  else if b < 0xc0 then t.put replacement
  else if b < 0xe0 then { t with mode := .utf8 .two 1 (b.toNat - 0xc0) }
  else if b < 0xf0 then { t with mode := .utf8 .three 2 (b.toNat - 0xe0) }
  else if b < 0xf8 then { t with mode := .utf8 .four 3 (b.toNat - 0xf0) }
  else t.put replacement

def feed (t : Term) (b : UInt8) : Term :=
  match t.mode with
  | .ground => t.start b
  | .escape => if b = 91 then { t with mode := .control [] 0 } else { t with mode := .ground }
  | .control params cur =>
    if 48 ≤ b ∧ b ≤ 57 then { t with mode := .control params (10 * cur + (b.toNat - 48)) }
    else if b = 59 then { t with mode := .control (params ++ [cur]) 0 }
    else t.finish (params ++ [cur]) b
  | .utf8 form left bits =>
    if 0x80 ≤ b ∧ b < 0xc0 then
      let bits := 64 * bits + (b.toNat - 0x80)
      if left ≤ 1 then
        -- A sequence that is too long is an error.
        t.put (if form = Form.of bits then bits else replacement)
      else { t with mode := .utf8 form (left - 1) bits }
    else (t.put replacement).start b

def run (t : Term) (bs : Bytes) : Term := bs.foldl feed t

variable {t : Term} {pen : Pen} {screen : Screen} {params : List Nat} {cur n : Nat}

@[simp] theorem run_nil (t : Term) : t.run [] = t := rfl

@[simp] theorem run_cons (t : Term) (b : UInt8) (bs : Bytes) :
    t.run (b :: bs) = (t.feed b).run bs := rfl

/-- A text behind another one. -/
theorem run_append (t : Term) (as bs : Bytes) : t.run (as ++ bs) = (t.run as).run bs :=
  List.foldl_append

/-! ## Control sequences -/

/-- Digits that stand for `n`, perhaps with zeros in front. -/
def IsNumeral (bs : Bytes) (n : Nat) : Prop :=
  ∃ cs : List Char, (∀ c ∈ cs, c.isDigit = true) ∧ bs = cs.map (fun c => UInt8.ofNat c.toNat) ∧
    Nat.ofDigitChars 10 cs 0 = n

/-- Digits are a numeral. -/
theorem isNumeral_toDigits (n : Nat) :
    IsNumeral ((Nat.toDigits 10 n).map fun c => UInt8.ofNat c.toNat) n :=
  ⟨_, fun _ hc => Nat.isDigit_of_mem_toDigits (by decide) (by decide) hc, rfl,
    Nat.ofDigitChars_ten_toDigits⟩

/-- Zeros in front change nothing. -/
theorem IsNumeral.replicate_append {bs : Bytes} (h : IsNumeral bs n) (k : Nat) :
    IsNumeral (List.replicate k 48 ++ bs) n := by
  obtain ⟨cs, hdigits, rfl, hn⟩ := h
  refine ⟨List.replicate k '0' ++ cs, ?_, ?_, ?_⟩
  · intro c hc
    rcases List.mem_append.mp hc with hc | hc
    · rw [List.eq_of_mem_replicate hc]
      decide
    · exact hdigits c hc
  · rw [List.map_append, List.map_replicate]
    rfl
  · -- The zeros in front add nothing to the value.
    rw [Nat.ofDigitChars_append, Nat.ofDigitChars_replicate_zero, Nat.mul_zero, hn]

/-- A digit of a parameter. -/
theorem feed_digit {c : Char} (hc : c.isDigit = true) :
    feed ⟨.control params cur, pen, screen⟩ (UInt8.ofNat c.toNat) =
      ⟨.control params (10 * cur + (c.toNat - '0'.toNat)), pen, screen⟩ := by
  obtain ⟨hlo, hhi⟩ := Char.isDigit_iff_toNat.mp hc
  have hlo' : 48 ≤ c.toNat := hlo
  have hhi' : c.toNat ≤ 57 := hhi
  have hval : (UInt8.ofNat c.toNat).toNat = c.toNat := by
    rw [UInt8.toNat_ofNat']
    omega
  -- The byte is a digit's, so the parameter gets one more.
  have hbounds : 48 ≤ UInt8.ofNat c.toNat ∧ UInt8.ofNat c.toNat ≤ 57 := by
    rw [UInt8.le_iff_toNat_le, UInt8.le_iff_toNat_le, hval]
    exact ⟨hlo', hhi'⟩
  simp only [feed, hbounds, and_self, if_true, hval]
  rfl

/-- Digits are read into the parameter. -/
theorem run_digits {cs : List Char} (h : ∀ c ∈ cs, c.isDigit = true) :
    run ⟨.control params cur, pen, screen⟩ (cs.map fun c => UInt8.ofNat c.toNat) =
      ⟨.control params (Nat.ofDigitChars 10 cs cur), pen, screen⟩ := by
  induction cs generalizing cur with
  | nil => rfl
  | cons c cs ih =>
    obtain ⟨hc, hcs⟩ := List.forall_mem_cons.mp h
    rw [List.map_cons, run_cons, feed_digit hc, ih hcs, Nat.ofDigitChars_cons]

/-- A parameter with the byte behind it. -/
theorem run_numeral {bs : Bytes} (h : IsNumeral bs n) (b : UInt8) (rest : Bytes) :
    run ⟨.control params 0, pen, screen⟩ (bs ++ b :: rest) =
      run (feed ⟨.control params n, pen, screen⟩ b) rest := by
  obtain ⟨cs, hdigits, rfl, rfl⟩ := h
  rw [run_append, run_digits hdigits]
  rfl

/-- A control sequence that chooses a colour. -/
theorem run_color {r g b : Nat} {rs gs bs : Bytes} (isBg : Bool) (pen : Pen) (screen : Screen)
    (hr : IsNumeral rs r) (hg : IsNumeral gs g) (hb : IsNumeral bs b) :
    run ⟨.ground, pen, screen⟩ ((if isBg then ascii "\x1b[48;2;" else ascii "\x1b[38;2;") ++
        (rs ++ 59 :: (gs ++ 59 :: (bs ++ [109])))) =
      ⟨.ground, if isBg then { pen with bg := some ![r, g, b] } else
        { pen with fg := some ![r, g, b] }, screen⟩ := by
  have hsep : ∀ params n, feed ⟨.control params n, pen, screen⟩ 59 =
      ⟨.control (params ++ [n]) 0, pen, screen⟩ := fun _ _ => rfl
  rw [run_append]
  cases isBg with
  | true =>
    show run ⟨.control [48, 2] 0, pen, screen⟩ _ = _
    rw [run_numeral hr, hsep, run_numeral hg, hsep, run_numeral hb]
    rfl
  | false =>
    show run ⟨.control [38, 2] 0, pen, screen⟩ _ = _
    rw [run_numeral hr, hsep, run_numeral hg, hsep, run_numeral hb]
    rfl

/-- The cursor goes to the first line, and nothing is erased. -/
theorem run_home : run ⟨.ground, pen, screen⟩ (ascii "\x1b[1;0H") =
    ⟨.ground, pen, .within [] [] screen.rows⟩ := rfl

/-- Going home and erasing leaves an empty screen. -/
theorem run_clear : run ⟨.ground, pen, screen⟩ (ascii "\x1b[H\x1b[J") =
    ⟨.ground, pen, .within [] [] []⟩ := rfl

/-! ## Characters -/

/-- A byte behind the first one. -/
theorem feed_tail {form : Form} {left bits : Nat} :
    feed ⟨.utf8 form left bits, pen, screen⟩ (tail n) =
      if left ≤ 1 then
        put ⟨.utf8 form left bits, pen, screen⟩
          (if form = Form.of (64 * bits + n % 64) then 64 * bits + n % 64 else replacement)
      else ⟨.utf8 form (left - 1) (64 * bits + n % 64), pen, screen⟩ := by
  have hval : (tail n).toNat = 0x80 + n % 64 := by
    rw [tail, UInt8.toNat_ofNat']
    omega
  -- The byte is one of those that continue a sequence.
  have hbounds : 0x80 ≤ tail n ∧ tail n < 0xc0 := by
    rw [UInt8.le_iff_toNat_le, UInt8.lt_iff_toNat_lt, hval]
    constructor
    · show 128 ≤ _
      omega
    · show _ < 192
      omega
  have hsub : 0x80 + n % 64 - 0x80 = n % 64 := by omega
  simp only [feed, hbounds, and_self, if_true, hval, hsub]

/-- The mark of the first byte of a form. -/
def lead : Form → Nat
  | .one => 0
  | .two => 0xc0
  | .three => 0xe0
  | .four => 0xf0

/-- The first byte of a sequence in more than one byte. -/
theorem feed_lead {form : Form} {a : Nat} (hform : form ≠ .one) (h : 64 ^ (form.length - 1) * a <
    form.cap) : feed ⟨.ground, pen, screen⟩ (UInt8.ofNat (lead form + a)) =
      ⟨.utf8 form (form.length - 1) a, pen, screen⟩ := by
  -- The number that is added does not run over the byte.
  have hval : (UInt8.ofNat (lead form + a)).toNat = lead form + a := by
    rw [UInt8.toNat_ofNat']
    cases form <;> simp only [lead, Form.length, Form.cap] at h ⊢ <;> omega
  generalize UInt8.ofNat (lead form + a) = b at hval
  simp only [feed, start, ← UInt8.toNat_inj, UInt8.lt_iff_toNat_lt, hval, UInt8.reduceToNat]
  cases form with
  | one => exact absurd rfl hform
  -- The ranges of the leading bytes do not meet, so the form is read back.
  | two | three | four =>
    simp only [lead, Form.length, Form.cap] at h ⊢
    grind

/-- A shortest sequence shows its character, unless that is a control character. -/
theorem run_utf8 (hlo : 0x20 ≤ n) (hdel : n ≠ 0x7f) (hhi : n < 0x200000) :
    run ⟨.ground, pen, screen⟩ ((Form.of n).seq n) = ⟨.ground, pen, screen.put ⟨n, pen⟩⟩ := by
  have hcap := Form.lt_cap_of hhi
  -- One byte is a character of its own; otherwise each byte behind the first adds six bits, and
  -- the character is put where none is missing.
  cases hform : Form.of n with
  | one =>
    rw [hform] at hcap
    simp only [Form.cap] at hcap
    have hval : (UInt8.ofNat n).toNat = n := by
      rw [UInt8.toNat_ofNat']
      omega
    show feed ⟨.ground, pen, screen⟩ (UInt8.ofNat n) = _
    generalize UInt8.ofNat n = b at hval
    simp only [feed, start, ← UInt8.toNat_inj, UInt8.lt_iff_toNat_lt, hval, UInt8.reduceToNat]
    rw [if_neg (by omega), if_neg (by omega), if_neg (by omega), if_neg (by omega), if_pos hcap]
    rfl
  | two =>
    rw [hform] at hcap
    simp only [Form.cap] at hcap
    show run (feed ⟨.ground, pen, screen⟩ (UInt8.ofNat (lead .two + n / 64))) [tail n] = _
    have hbits : 64 * (n / 64) + n % 64 = n := by omega
    rw [feed_lead (by decide) (by simp only [Form.length, Form.cap]; omega), run_cons, feed_tail,
      if_pos (by decide), hbits, if_pos hform.symm]
    rfl
  | three =>
    rw [hform] at hcap
    simp only [Form.cap] at hcap
    show run (feed ⟨.ground, pen, screen⟩ (UInt8.ofNat (lead .three + n / 4096)))
      [tail (n / 64), tail n] = _
    have hbits : 64 * (64 * (n / 4096) + n / 64 % 64) + n % 64 = n := by omega
    rw [feed_lead (by decide) (by simp only [Form.length, Form.cap]; omega), run_cons, feed_tail,
      if_neg (by decide), run_cons, feed_tail, if_pos (by decide), hbits, if_pos hform.symm]
    rfl
  | four =>
    rw [hform] at hcap
    simp only [Form.cap] at hcap
    show run (feed ⟨.ground, pen, screen⟩ (UInt8.ofNat (lead .four + n / 262144)))
      [tail (n / 4096), tail (n / 64), tail n] = _
    have hbits : 64 * (64 * (64 * (n / 262144) + n / 4096 % 64) + n / 64 % 64) + n % 64 = n := by
      omega
    rw [feed_lead (by decide) (by simp only [Form.length, Form.cap]; omega), run_cons, feed_tail,
      if_neg (by decide), run_cons, feed_tail, if_neg (by decide), run_cons, feed_tail,
      if_pos (by decide), hbits, if_pos hform.symm]
    rfl

/-! ## Text -/

/-- What printable bytes are shown as. -/
def text (pen : Pen) (bs : Bytes) : List Cell := bs.map fun b => ⟨b.toNat, pen⟩

/-- Printable characters are put behind each other. -/
theorem run_text {bs : Bytes} (h : ∀ b ∈ bs, 0x20 ≤ b ∧ b < 0x7f) (above : List (List Cell))
    (line : List Cell) (old : List (List Cell)) :
    run ⟨.ground, pen, .within above line old⟩ bs =
      ⟨.ground, pen, .within above (line ++ text pen bs) old⟩ := by
  induction bs generalizing line with
  | nil =>
    rw [text, List.map_nil, List.append_nil]
    rfl
  | cons b bs ih =>
    obtain ⟨hb, hbs⟩ := List.forall_mem_cons.mp h
    rw [UInt8.le_iff_toNat_le, UInt8.lt_iff_toNat_lt] at hb
    have hlo : 0x20 ≤ b.toNat := hb.1
    have hhi : b.toNat < 0x7f := hb.2
    -- A printing byte is put under the cursor, with the pen.
    have hfeed : feed ⟨.ground, pen, .within above line old⟩ b =
        ⟨.ground, pen, .within above (line ++ [⟨b.toNat, pen⟩]) old⟩ := by
      rw [← Screen.put_within]
      simp only [feed, start, ← UInt8.toNat_inj, UInt8.lt_iff_toNat_lt, UInt8.reduceToNat]
      rw [if_neg (by omega), if_neg (by omega), if_neg (by omega), if_neg (by omega),
        if_pos (by omega)]
      rfl
    rw [run_cons, hfeed, ih hbs, List.append_assoc]
    rfl

/-- A newline. -/
theorem run_newLine (screen : Screen) :
    run ⟨.ground, pen, screen⟩ (ascii "\n") = ⟨.ground, pen, screen.newLine⟩ := rfl

/-- A tab leaves what it passes over. -/
theorem run_tab (pen : Pen) (above : List (List Cell)) (line : List Cell)
    (old : List (List Cell)) :
    ∃ gap, gap.length = 8 - line.length % 8 ∧
      run ⟨.ground, pen, .within above line old⟩ (ascii "\t") =
        ⟨.ground, pen, .within above (line ++ gap) old⟩ := by
  have hlen : ∀ n right, (List.take n right ++
      List.replicate (n - right.length) Cell.blank).length = n := by
    intro n right
    rw [List.length_append, List.length_take, List.length_replicate]
    omega
  refine ⟨_, hlen _ ((old.headD []).drop line.length), ?_⟩
  show Term.mk .ground pen (Screen.within above line old).tab = _
  rw [Screen.within, Screen.within, Screen.tab, List.length_append, hlen, ← List.drop_drop]

end Term

end Terminal
