import Udb.Native.V4l2

/-!
# Which directory a video node is looked up in

`get_v4l2_index` clears its buffers once. `readlink` stores no terminator and the loop
that cuts off the last three components stores none either, so a link that is shorter
than an earlier one leaves the end of that one behind it, and so does its directory.

## Key results

- `v4l2Turn_eq`: one turn, on the strings that the buffers show
- `findsNodes_iff`: the links with which every node is found
-/

namespace Udb.Spec

open CMem Udb.Native

/-! ## The strings in the buffers -/

/-- What `copyDir` copies. -/
def cutDir (flag : Int) : Nat → Bytes → Bytes
  | _, [] => []
  | k, c :: rest =>
    let k := if c = 47 then k + 1 else k
    if (k : Int) = flag - 2 then [] else c :: cutDir flag k rest

/-- The link without its last three components. -/
def parentDir (link : Bytes) : Bytes := cutDir (link.count 47) 0 link

/-- The loop that copies a directory is a copy of what it cuts. -/
private theorem copyDir_eq (flag : Int) (devPath : Buf pathMax) (k off : Nat) (link : Bytes)
    (hoff : off ≤ pathMax) :
    copyDir flag devPath k off link = devPath.memcpy off (cutDir flag k link) := by
  have hnil (b : Buf pathMax) (off : Nat) (h : off ≤ pathMax) : b.memcpy off [] = .ok b := by
    rw [Buf.memcpy_eq_ok_iff]
    exact ⟨by simpa using h, by simp⟩
  -- Induction on what is left of the link. The bytes are stored one by one, and together.
  induction link generalizing devPath k off with
  | nil => exact (hnil devPath off hoff).symm
  | cons c link ih =>
    rw [copyDir, cutDir]
    generalize (if c = 47 then k + 1 else k) = k'
    by_cases hflag : (k' : Int) = flag - 2
    · rw [if_pos hflag, if_pos hflag, hnil devPath off hoff]
      rfl
    · rw [if_neg hflag, if_neg hflag, ← Buf.memcpy_cons devPath off c (cutDir flag k' link)]
      cases hone : devPath.memcpy off [c] with
      | error e => rfl
      | ok devPath' =>
        have hle := (Buf.memcpy_eq_ok_iff.mp hone).1
        rw [List.length_singleton] at hle
        exact ih devPath' _ (off + 1) hle

/-- What is cut is part of the link. -/
private theorem cutDir_subset (flag : Int) (k : Nat) (link : Bytes)
    : cutDir flag k link ⊆ link := by
  induction link generalizing k with
  | nil => exact List.Subset.refl _
  | cons c link ih =>
    rw [cutDir]
    generalize (if c = 47 then k + 1 else k) = k'
    split
    · exact List.nil_subset _
    · exact List.cons_subset_cons c (ih _)

/-- It is no longer than the link. -/
private theorem length_cutDir_le (flag : Int) (k : Nat) (link : Bytes) :
    (cutDir flag k link).length ≤ link.length := by
  induction link generalizing k with
  | nil => exact le_rfl
  | cons c link ih =>
    rw [cutDir]
    generalize (if c = 47 then k + 1 else k) = k'
    split
    · exact Nat.zero_le _
    · simpa only [List.length_cons, Nat.add_le_add_iff_right] using ih k'

/-- The cut is at the slash with the number. -/
private theorem cutDir_append {flag : Int} (dir rest : Bytes) {k : Nat}
    (hk : (k : Int) + dir.count 47 + 1 = flag - 2) : cutDir flag k (dir ++ 47 :: rest) = dir := by
  induction dir generalizing k with
  | nil =>
    -- The slash behind `dir` is the one that is counted to.
    rw [List.nil_append, cutDir, if_pos rfl, if_pos (by simpa using hk)]
  | cons c dir ih =>
    rw [List.cons_append, cutDir]
    by_cases hc : c = 47
    · subst hc
      rw [List.count_cons_self] at hk
      -- A slash in front of it.
      rw [if_pos rfl, if_neg (by omega), ih (by omega)]
    · rw [List.count_cons_of_ne hc] at hk
      rw [if_neg hc, if_neg (by omega), ih hk]

/-- Three components behind a directory are cut off. -/
private theorem parentDir_eq {dir rest : Bytes} (h : rest.count 47 = 2) :
    parentDir (dir ++ 47 :: rest) = dir := by
  apply cutDir_append
  rw [List.count_append, List.count_cons_self, h]
  omega

/-- The strings that the buffers show: the link, and the directory behind
    `/sys/class/video4linux/`. -/
structure Trail where
  link : Bytes
  dir : Bytes

def busPath (dir : Bytes) : Bytes := sysClassV4l ++ dir ++ ascii "/busnum"

def devPath (dir : Bytes) : Bytes := sysClassV4l ++ dir ++ ascii "/devnum"

/-- What is in the line when `path` has been read. -/
def lineAfter (files : Bytes → Option Attr) (path line : Bytes) : Bytes :=
  ((files path).map Attr.value).getD line

/-- The next link, and the directory that is looked at, each with what the strings before it have
    left behind it. -/
def Trail.next (t : Trail) (target : Bytes) : Trail :=
  let link := overlay target t.link
  ⟨link, overlay (parentDir link) t.dir⟩

/-- The strings leave room for their terminators, and the path of an attribute does. -/
def Trail.Fits (t : Trail) : Prop :=
  t.link.length < pathMax ∧ (sysClassV4l ++ t.dir).length + 7 < pathMax

instance (t : Trail) : Decidable t.Fits := inferInstanceAs (Decidable (_ ∧ _))

/-- The buffers show these strings. -/
structure Shows (st : V4l2State) (t : Trail) (line : Bytes) : Prop where
  link : st.interfacePath.bytes = padTo pathMax t.link
  linkNul : (0 : UInt8) ∉ t.link
  linkLen : t.link.length ≤ pathMax
  dir : ∃ text, st.devPath.bytes = padTo pathMax text ∧ text.length ≤ pathMax ∧
    text.drop sysClassV4l.length = t.dir
  dirNul : (0 : UInt8) ∉ t.dir
  line : st.line = line

/-! ## One turn -/

section Turn

variable {st : V4l2State} {t : Trail} {line target : Bytes}

/-- The path of an attribute, if it fits. -/
private theorem sysNode_eq {dir node : Bytes} (hnode : node.length = 7) :
    sysNode dir node =
      if dir.length + 7 < pathMax then .ok (dir ++ node) else .error .outOfBounds := by
  have hlen : (dir ++ node).length = dir.length + 7 := by rw [List.length_append, hnode]
  rw [sysNode, List.take_of_length_le (by omega), hlen]
  rfl

/-- The length of `/sys/class/video4linux/`. -/
private theorem length_sysClassV4l : sysClassV4l.length = 23 := by decide

/-- `readlink` writes over what the buffer holds, without an end. -/
private theorem readlink_eq (h : Shows st t line) (target : Bytes) :
    ∃ b, readlink target st.interfacePath = .ok b ∧
      b.bytes = padTo pathMax (overlay (target.take pathMax) t.link) := by
  have hlen : (target.take pathMax).length ≤ pathMax := List.length_take_le _ _
  have hlink : st.interfacePath.bytes = padTo pathMax ([] ++ t.link) := h.link
  exact Buf.memcpy_overlay hlink h.linkLen
    (by simpa only [List.length_nil, Nat.zero_add] using hlen)

/-- The start of the directory's path is stored over the same bytes, from the second turn on. -/
private theorem memcpy_sysClassV4l (h : Shows st t line) :
    ∃ b, st.devPath.memcpy 0 sysClassV4l = .ok b ∧
      b.bytes = padTo pathMax (sysClassV4l ++ t.dir) ∧
      (sysClassV4l ++ t.dir).length ≤ pathMax := by
  obtain ⟨text, hbytes, hlen, hdrop⟩ := h.dir
  have hmax : pathMax = 4096 := rfl
  have hsys := length_sysClassV4l
  have hroom : ([] : Bytes).length + sysClassV4l.length ≤ pathMax := by
    -- The prefix overwrites the start of what the buffer shows, and no more.
    rw [List.length_nil]
    omega
  have hfront : st.devPath.bytes = padTo pathMax ([] ++ text) := hbytes
  obtain ⟨b, hb, hbytes'⟩ := Buf.memcpy_overlay hfront hlen hroom
  rw [List.nil_append, overlay, hdrop] at hbytes'
  refine ⟨b, hb, hbytes', ?_⟩
  rw [← hdrop, List.length_append, List.length_drop]
  omega

/-- The directory is stored behind the start of the path, over the one that was there. -/
private theorem copyDir_returns (h : Shows st t line) {link : Bytes} (hnul : (0 : UInt8) ∉ link)
    (hcut : sysClassV4l.length + (parentDir link).length ≤ pathMax) :
    ∃ b₀ b₁, st.devPath.memcpy 0 sysClassV4l = .ok b₀ ∧
      copyDir (link.count 47) b₀ 0 sysClassV4l.length link = .ok b₁ ∧
      b₁.bytes = padTo pathMax (sysClassV4l ++ overlay (parentDir link) t.dir) ∧
      (sysClassV4l ++ overlay (parentDir link) t.dir).length ≤ pathMax ∧
      (0 : UInt8) ∉ sysClassV4l ++ overlay (parentDir link) t.dir := by
  obtain ⟨b₀, hb₀, hbytes₀, hlen₀⟩ := memcpy_sysClassV4l h
  -- The parent's name goes behind the prefix, over what was there.
  obtain ⟨b₁, hb₁, hbytes₁⟩ := Buf.memcpy_overlay hbytes₀ hlen₀ hcut
  have hcopy : copyDir (link.count 47) b₀ 0 sysClassV4l.length link = .ok b₁ := by
    rw [copyDir_eq _ _ _ _ _ (by omega)]
    exact hb₁
  have hcutNul : (0 : UInt8) ∉ parentDir link := fun hmem => hnul (cutDir_subset _ _ _ hmem)
  refine ⟨b₀, b₁, hb₀, hcopy, hbytes₁, ?_, ?_⟩
  · rw [List.length_append] at hlen₀ ⊢
    rw [length_overlay]
    omega
  · rw [List.mem_append]
    exact not_or_intro (by decide) (not_mem_overlay hcutNul h.dirNul)

/-- The lines from which the numbers are read. -/
def busLine (files : Bytes → Option Attr) (dir line : Bytes) : Bytes :=
  lineAfter files (busPath dir) line

def devLine (files : Bytes → Option Attr) (dir line : Bytes) : Bytes :=
  lineAfter files (devPath dir) (busLine files dir line)

/-- A turn whose strings fit. -/
theorem v4l2Turn_eq (v : V4l2) (h : Shows st t line) (hnul : (0 : UInt8) ∉ target)
    (hfits : (t.next target).Fits) :
    ∃ st', v4l2Turn v target st =
        .ok (dec8 (busLine v.files (t.next target).dir line),
          dec8 (devLine v.files (t.next target).dir line), st') ∧
      Shows st' (t.next target) (devLine v.files (t.next target).dir line) := by
  obtain ⟨hlink, hdir⟩ := hfits
  have hmax : pathMax = 4096 := rfl
  have hsys := length_sysClassV4l
  -- The link.
  have hlinkLen : (overlay target t.link).length < pathMax := hlink
  have htake : target.take pathMax = target := by
    rw [length_overlay] at hlinkLen
    exact List.take_of_length_le (by omega)
  have hlinkNul := not_mem_overlay hnul h.linkNul
  obtain ⟨b, hb, hbytes⟩ := readlink_eq h target
  rw [htake] at hbytes
  have hstr : cstrAt b.bytes 0 = .ok (overlay target t.link) := by
    rw [hbytes, cstrAt_zero_padTo hlinkNul hlinkLen.le, if_pos hlinkLen]
  -- The directory.
  have hdirLen : (sysClassV4l ++ overlay (parentDir (overlay target t.link)) t.dir).length + 7 <
    pathMax := hdir
  have hcutLen : sysClassV4l.length + (parentDir (overlay target t.link)).length ≤ pathMax := by
    rw [List.length_append, length_overlay] at hdirLen
    omega
  obtain ⟨b₀, b₁, hb₀, hcopy, hbytes₁, hle, hpathNul⟩ := copyDir_returns h hlinkNul hcutLen
  have hstr₁ : cstrAt b₁.bytes 0 =
      .ok (sysClassV4l ++ overlay (parentDir (overlay target t.link)) t.dir) := by
    rw [hbytes₁, cstrAt_zero_padTo hpathNul hle, if_pos (by omega)]
  refine ⟨⟨b, b₁, devLine v.files (t.next target).dir line⟩, ?_, ?_⟩
  · simp only [v4l2Turn, hb, ok_bind, hstr, hb₀, hcopy, hstr₁,
      sysNode_eq (by decide : (ascii "/busnum").length = 7),
      sysNode_eq (by decide : (ascii "/devnum").length = 7), if_pos hdirLen,
      readSysfsNode_attr _ le_rfl, h.line]
    rfl
  · exact {
      link := hbytes
      linkNul := hlinkNul
      linkLen := hlinkLen.le
      dir := ⟨_, hbytes₁, hle, List.drop_left⟩
      dirNul := fun hmem => hpathNul (List.mem_append_right _ hmem)
      line := rfl }

/-- A turn whose strings do not fit leaves its buffers. -/
private theorem v4l2Turn_of_not_fits (v : V4l2) (h : Shows st t line) (hnul : (0 : UInt8) ∉ target)
    (hno : ¬ (t.next target).Fits) : v4l2Turn v target st = .error .outOfBounds := by
  have hmax : pathMax = 4096 := rfl
  have hsys := length_sysClassV4l
  obtain ⟨b, hb, hbytes⟩ := readlink_eq h target
  have hlinkNul : (0 : UInt8) ∉ overlay (target.take pathMax) t.link :=
    not_mem_overlay (fun hmem => hnul (List.mem_of_mem_take hmem)) h.linkNul
  have hlinkLen := h.linkLen
  by_cases hlink : (overlay target t.link).length < pathMax
  · -- The link has its terminator, so it is the path that does not fit.
    have hlink' := hlink
    rw [length_overlay] at hlink'
    rw [List.take_of_length_le (by omega)] at hbytes hlinkNul
    have hstr : cstrAt b.bytes 0 = .ok (overlay target t.link) := by
      rw [hbytes, cstrAt_zero_padTo hlinkNul hlink.le, if_pos hlink]
    have hdir : ¬ (sysClassV4l ++ overlay (parentDir (overlay target t.link)) t.dir).length + 7 <
        pathMax := fun hdir => hno ⟨hlink, hdir⟩
    by_cases hcut : sysClassV4l.length + (parentDir (overlay target t.link)).length ≤ pathMax
    · obtain ⟨b₀, b₁, hb₀, hcopy, hbytes₁, hle, hpathNul⟩ := copyDir_returns h hlinkNul hcut
      simp only [v4l2Turn, hb, ok_bind, hstr, hb₀, hcopy, hbytes₁,
        cstrAt_zero_padTo hpathNul hle]
      split
      · rw [ok_bind, sysNode_eq (by decide), if_neg hdir]
        rfl
      · rfl
    · -- The directory itself is stored outside.
      obtain ⟨b₀, hb₀, -⟩ := memcpy_sysClassV4l h
      have hcopy : copyDir ((overlay target t.link).count 47) b₀ 0 sysClassV4l.length
          (overlay target t.link) = .error .outOfBounds := by
        rw [copyDir_eq _ _ _ _ _ (by omega)]
        exact dif_neg hcut
      simp only [v4l2Turn, hb, ok_bind, hstr, hb₀, hcopy, error_bind]
  · -- The link fills its buffer.
    have hlen : (overlay (target.take pathMax) t.link).length = pathMax := by
      rw [length_overlay] at hlink ⊢
      rw [List.length_take]
      omega
    simp only [v4l2Turn, hb, ok_bind, hbytes]
    rw [cstrAt_zero_padTo hlinkNul hlen.le, if_neg (by omega)]
    rfl

end Turn

/-- What the lookup sees of sysfs when every link is short enough for a path with it to be one. -/
structure ShortV4l2 extends V4l2 where
  short : ∀ n target, link n = some target →
    sysClassV4l.length + target.bytes.length + 7 < pathMax

/-- The lookup then returns. -/
private theorem v4l2Loop_returns (v : ShortV4l2) (busnr devnr : UInt8) {st : V4l2State} {t : Trail}
    {line : Bytes} (h : Shows st t line)
    (hlink : sysClassV4l.length + t.link.length + 7 < pathMax)
    (hdir : sysClassV4l.length + t.dir.length + 7 < pathMax) (indexes : List Nat) :
    ∃ i, v4l2Loop v.toV4l2 busnr devnr indexes st = .ok i := by
  induction indexes generalizing st t line with
  | nil => exact ⟨_, rfl⟩
  | cons n indexes ih =>
    rw [v4l2Loop]
    cases htarget : v.link n with
    | none => exact ih h hlink hdir
    | some target =>
      have hshort := v.short n target htarget
      -- Each string is at most as long as the longest link.
      have hlink' : sysClassV4l.length + (t.next target.bytes).link.length + 7 < pathMax := by
        rw [Trail.next, length_overlay]
        omega
      have hcut := length_cutDir_le ((t.next target.bytes).link.count 47) 0
        (t.next target.bytes).link
      have hdir' : sysClassV4l.length + (t.next target.bytes).dir.length + 7 < pathMax := by
        have hlen : (t.next target.bytes).dir.length =
            max (parentDir (t.next target.bytes).link).length t.dir.length := by
          rw [← length_overlay]
          rfl
        rw [hlen, parentDir]
        omega
      have hfits : (t.next target.bytes).Fits :=
        ⟨by omega, by rw [List.length_append]; exact hdir'⟩
      obtain ⟨st', hturn, hst'⟩ := v4l2Turn_eq v.toV4l2 h target.nulFree hfits
      dsimp only
      rw [hturn, ok_bind]
      dsimp only
      split
      · exact ⟨_, rfl⟩
      · exact ih hst' hlink' hdir'

/-- Cleared buffers show empty strings. -/
private theorem shows_zero : Shows ⟨Buf.zero pathMax, Buf.zero pathMax, []⟩ ⟨[], []⟩ [] := by
  -- A cleared buffer shows the empty string.
  have hzero : (Buf.zero pathMax).bytes = padTo pathMax [] := by
    rw [Buf.bytes_zero, padTo, List.nil_append, List.length_nil, Nat.sub_zero]
  exact {
    link := hzero
    linkNul := List.not_mem_nil
    linkLen := Nat.zero_le _
    dir := ⟨[], hzero, Nat.zero_le _, List.drop_nil⟩
    dirNul := List.not_mem_nil
    line := rfl }

/-- With short links the lookup stays in its buffers. -/
theorem getV4l2Index_returns (v : ShortV4l2) (busnr devnr : UInt8) :
    ∃ i, getV4l2Index v.toV4l2 busnr devnr = .ok i :=
  v4l2Loop_returns v busnr devnr shows_zero (by decide) (by decide) _

/-! ## The nodes -/

/-- A number in decimal. -/
def decimal (n : Nat) : Bytes := (Nat.toDigits 10 n).map fun c => UInt8.ofNat c.toNat

/-- Only digits. -/
private theorem decimal_bounds {n : Nat} {x : UInt8} (h : x ∈ decimal n) : 48 ≤ x ∧ x ≤ 57 := by
  obtain ⟨c, hc, rfl⟩ := List.mem_map.mp h
  have hdigit := Nat.isDigit_of_mem_toDigits (by omega) (by omega) hc
  obtain ⟨hlo, hhi⟩ := Char.isDigit_iff_toNat.mp hdigit
  have hlo' : 48 ≤ c.toNat := hlo
  have hhi' : c.toNat ≤ 57 := hhi
  have hsize : UInt8.size = 256 := rfl
  rw [UInt8.le_iff_toNat_le, UInt8.le_iff_toNat_le, UInt8.toNat_ofNat_of_lt' (by omega)]
  exact ⟨hlo, hhi⟩

/-- The link of a video node, which leads to its interface in the directory of its device. -/
structure VideoLink where
  dir : Bytes
  interface : Bytes
  dirNul : (0 : UInt8) ∉ dir
  interfaceNul : (0 : UInt8) ∉ interface
  noSlash : (47 : UInt8) ∉ interface

/-- `dir/interface/video4linux/videoN` -/
def VideoLink.text (l : VideoLink) (n : Nat) : Bytes :=
  l.dir ++ 47 :: (l.interface ++ (ascii "/video4linux/video" ++ decimal n))

/-- A link is a string. -/
private theorem VideoLink.nul_notMem (l : VideoLink) (n : Nat) : (0 : UInt8) ∉ l.text n := by
  -- None of the parts of the link has a NUL.
  have hdigits : (0 : UInt8) ∉ decimal n := fun h => absurd (decimal_bounds h).1 (by decide)
  have hmid : (0 : UInt8) ∉ ascii "/video4linux/video" := by decide
  simp only [VideoLink.text, List.mem_append, List.mem_cons]
  rintro (h | h | h | h | h)
  · exact l.dirNul h
  · cases h
  · exact l.interfaceNul h
  · exact hmid h
  · exact hdigits h

/-- Without anything left behind it, a link leads to its directory. -/
private theorem VideoLink.parentDir_text (l : VideoLink) (n : Nat) : parentDir
    (l.text n) = l.dir := by
  apply parentDir_eq
  have hdigits : (47 : UInt8) ∉ decimal n := fun h => absurd (decimal_bounds h).1 (by decide)
  rw [List.count_append, List.count_append, List.count_eq_zero.mpr l.noSlash,
    List.count_eq_zero.mpr hdigits]
  decide

/-- The lookup with these links and attributes. -/
def videoEnv (links : Nat → Option VideoLink) (files : Bytes → Option Attr) : V4l2 where
  link n := (links n).map fun l => ⟨l.text n, l.nul_notMem n⟩
  files := files

/-- The nodes that exist, by their numbers. -/
def nodes (links : Nat → Option VideoLink) : List (Nat × VideoLink) :=
  (List.range v4l2DevicesIdMax).filterMap fun n => (links n).map (n, ·)

/-- What the buffers show behind these nodes. -/
def trail (ns : List (Nat × VideoLink)) : Trail :=
  ns.foldl (fun t x => t.next (x.2.text x.1)) ⟨[], []⟩

/-- What is left behind one link more. -/
private theorem trail_take {ns : List (Nat × VideoLink)} {i : Nat} (hi : i < ns.length) :
    trail (ns.take (i + 1)) = (trail (ns.take i)).next (ns[i].2.text ns[i].1) := by
  rw [trail, List.take_succ_eq_append_getElem hi, List.foldl_concat]
  rfl

/-- The numbers that a directory has. -/
def numbersAt (files : Bytes → Option Attr) (dir : Bytes) : Option (UInt8 × UInt8) :=
  match files (busPath dir), files (devPath dir) with
  | some bus, some dev => some (dec8 bus.value, dec8 dev.value)
  | _, _ => none

/-- The number is the least of the nodes whose device has the numbers, or -1. -/
def IsNode (links : Nat → Option VideoLink) (files : Bytes → Option Attr) (bus dev : UInt8)
    (r : Int) : Prop :=
  (∃ (n : Nat) (l : VideoLink), r = n ∧ n < v4l2DevicesIdMax ∧ links n = some l ∧
      numbersAt files l.dir = some (bus, dev) ∧
      ∀ (m : Nat) (l' : VideoLink), m < n → links m = some l' →
        numbersAt files l'.dir ≠ some (bus, dev)) ∨
    r = -1 ∧ ∀ (n : Nat) (l : VideoLink), n < v4l2DevicesIdMax → links n = some l →
      numbersAt files l.dir ≠ some (bus, dev)

section Nodes

variable {links : Nat → Option VideoLink} {files : Bytes → Option Attr} {bus dev : UInt8}

/-- The nodes are the links that are there. -/
private theorem mem_nodes {n : Nat} {l : VideoLink} :
    (n, l) ∈ nodes links ↔ n < v4l2DevicesIdMax ∧ links n = some l := by
  rw [nodes, List.mem_filterMap]
  constructor
  · rintro ⟨m, hm, h⟩
    obtain ⟨l', hl', heq⟩ := Option.map_eq_some_iff.mp h
    obtain ⟨rfl, rfl⟩ := Prod.mk.inj heq
    exact ⟨List.mem_range.mp hm, hl'⟩
  · rintro ⟨hn, hl⟩
    exact ⟨n, List.mem_range.mpr hn, by rw [hl]; rfl⟩

/-- The numbers of the nodes go up. -/
private theorem pairwise_nodes : (nodes links).Pairwise fun x y => x.1 < y.1 := by
  rw [nodes, List.pairwise_filterMap]
  refine List.pairwise_lt_range.imp ?_
  intro m n hlt x hx y hy
  obtain ⟨l, -, rfl⟩ := Option.map_eq_some_iff.mp hx
  obtain ⟨l', -, rfl⟩ := Option.map_eq_some_iff.mp hy
  exact hlt

/-- The nodes are in the order of their numbers. -/
private theorem fst_lt_iff {i j : Nat} (hi : i < (nodes links).length)
    (hj : j < (nodes links).length) :
    ((nodes links)[i]).1 < ((nodes links)[j]).1 ↔ i < j := by
  have hmono := List.pairwise_iff_getElem.mp (@pairwise_nodes links)
  constructor
  · intro h
    by_contra hle
    rcases Nat.lt_or_eq_of_le (Nat.le_of_not_lt hle) with hlt | rfl
    · exact absurd (hmono j i hj hi hlt) (by omega)
    · omega
  · exact hmono i j hi hj

/-- The same by the places of the nodes. -/
private theorem isNode_iff {r : Int} :
    IsNode links files bus dev r ↔
      (∃ (i : Nat) (hi : i < (nodes links).length), r = ((nodes links)[i].1 : Int) ∧
        numbersAt files (nodes links)[i].2.dir = some (bus, dev) ∧
        ∀ (j : Nat) (hj : j < (nodes links).length), j < i →
          numbersAt files (nodes links)[j].2.dir ≠ some (bus, dev)) ∨
      r = -1 ∧ ∀ (i : Nat) (hi : i < (nodes links).length),
        numbersAt files (nodes links)[i].2.dir ≠ some (bus, dev) := by
  have hmem (i : Nat) (hi : i < (nodes links).length) := mem_nodes.mp (List.getElem_mem hi)
  -- A node has a place and a place has a node, and the numbers are in the order of the places.
  refine or_congr ⟨?_, ?_⟩ (and_congr_right fun _ => ⟨fun h i hi => ?_, fun h n l hn hl => ?_⟩)
  · rintro ⟨n, l, rfl, hn, hl, hown, hbefore⟩
    obtain ⟨i, hi, heq⟩ := List.getElem_of_mem (mem_nodes.mpr ⟨hn, hl⟩)
    refine ⟨i, hi, by rw [heq], by rw [heq]; exact hown, fun j hj hji => ?_⟩
    have hlt := (fst_lt_iff hj hi).mpr hji
    rw [heq] at hlt
    exact hbefore _ _ hlt (hmem j hj).2
  · rintro ⟨i, hi, rfl, hown, hbefore⟩
    refine ⟨_, _, rfl, (hmem i hi).1, (hmem i hi).2, hown, fun m l hm hl => ?_⟩
    obtain ⟨j, hj, heq⟩ := List.getElem_of_mem
      (mem_nodes.mpr ⟨hm.trans (hmem i hi).1, hl⟩)
    have hji : j < i := by
      rw [← fst_lt_iff hj hi, heq]
      exact hm
    have hno := hbefore j hj hji
    rw [heq] at hno
    exact hno
  · exact h _ _ (hmem i hi).1 (hmem i hi).2
  · obtain ⟨i, hi, heq⟩ := List.getElem_of_mem (mem_nodes.mpr ⟨hn, hl⟩)
    have hno := h i hi
    rw [heq] at hno
    exact hno

end Nodes

/-! ## The whole loop -/

/-- The loop on the strings that the buffers show. -/
def seek (files : Bytes → Option Attr) (bus dev : UInt8) :
    Trail → Bytes → List (Nat × VideoLink) → Except Fault Int
  | _, _, [] => .ok (-1)
  | t, line, x :: ns =>
    if (t.next (x.2.text x.1)).Fits then
      if dec8 (devLine files (t.next (x.2.text x.1)).dir line) = dev ∧
          dec8 (busLine files (t.next (x.2.text x.1)).dir line) = bus then .ok x.1
      else seek files bus dev (t.next (x.2.text x.1))
        (devLine files (t.next (x.2.text x.1)).dir line) ns
    else .error .outOfBounds

section Seek

variable {links : Nat → Option VideoLink} {files : Bytes → Option Attr} {bus dev : UInt8}

/-- The loop seeks among the nodes. -/
private theorem v4l2Loop_eq {st : V4l2State} {t : Trail} {line : Bytes} (h : Shows st t line)
    (indexes : List Nat) :
    v4l2Loop (videoEnv links files) bus dev indexes st =
      seek files bus dev t line (indexes.filterMap fun n => (links n).map (n, ·)) := by
  induction indexes generalizing st t line with
  | nil => rfl
  | cons n indexes ih =>
    rw [v4l2Loop, List.filterMap_cons]
    cases hl : links n with
    | none =>
      -- `open` fails, and the buffers are not touched.
      have hlink : (videoEnv links files).link n = none := by simp [videoEnv, hl]
      rw [hlink]
      exact ih h
    | some l =>
      have hlink : (videoEnv links files).link n = some ⟨l.text n, l.nul_notMem n⟩ := by
        simp [videoEnv, hl]
      rw [hlink]
      show (v4l2Turn (videoEnv links files) (l.text n) st >>= _) = seek _ _ _ _ _ ((n, l) :: _)
      rw [seek]
      by_cases hfits : (t.next (l.text n)).Fits
      · obtain ⟨st', hturn, hst'⟩ := v4l2Turn_eq (videoEnv links files) h (l.nul_notMem n) hfits
        rw [hturn, if_pos hfits, ok_bind]
        dsimp only
        rw [ih hst']
        rfl
      · rw [v4l2Turn_of_not_fits _ h (l.nul_notMem n) hfits, if_neg hfits, error_bind]

/-- So does the lookup, with nothing left from before. -/
private theorem getV4l2Index_eq :
    getV4l2Index (videoEnv links files) bus dev =
      seek files bus dev ⟨[], []⟩ [] (nodes links) :=
  v4l2Loop_eq shows_zero _

/-- Where both files are there, the numbers that are compared are the directory's. -/
private theorem compared_iff {dir : Bytes} (hbus : (files (busPath dir)).isSome)
    (hdev : (files (devPath dir)).isSome) (line : Bytes) :
    (dec8 (devLine files dir line) = dev ∧ dec8 (busLine files dir line) = bus) ↔
      numbersAt files dir = some (bus, dev) := by
  obtain ⟨b, hb⟩ := Option.isSome_iff_exists.mp hbus
  obtain ⟨d, hd⟩ := Option.isSome_iff_exists.mp hdev
  simp only [devLine, busLine, lineAfter, numbersAt, hb, hd, Option.map_some, Option.getD_some,
    Option.some.injEq, Prod.mk.injEq]
  exact and_comm

/-- The node that comes next is the one at the place, and the others are behind it. -/
private theorem of_drop_eq_cons {ns : List (Nat × VideoLink)} {i : Nat} {x : Nat × VideoLink}
    {rest : List (Nat × VideoLink)} (h : ns.drop i = x :: rest) :
    ∃ hi : i < ns.length, x = ns[i] ∧ rest = ns.drop (i + 1) := by
  have hi : i < ns.length := by
    by_contra hle
    rw [List.drop_of_length_le (by omega)] at h
    cases h
  rw [List.drop_eq_getElem_cons hi] at h
  obtain ⟨hx, htail⟩ := List.cons.inj h
  exact ⟨hi, hx.symm, htail.symm⟩

/-- What a result says, where every file is there: the nodes in front of it have been looked at,
    and did not have the numbers where they were looked up. -/
private theorem seek_eq_ok (hall : ∀ path, (files path).isSome) (ns : List (Nat × VideoLink))
    (i : Nat)
    {line : Bytes} {r : Int}
    (h : seek files bus dev (trail (ns.take i)) line (ns.drop i) = .ok r) :
    (∃ (j : Nat) (hj : j < ns.length), i ≤ j ∧ r = ns[j].1 ∧
        numbersAt files (trail (ns.take (j + 1))).dir = some (bus, dev) ∧
        ∀ k, i ≤ k → k < j → numbersAt files (trail (ns.take (k + 1))).dir ≠ some (bus, dev)) ∨
      r = -1 ∧ ∀ j, i ≤ j → j < ns.length → (trail (ns.take (j + 1))).Fits ∧
        numbersAt files (trail (ns.take (j + 1))).dir ≠ some (bus, dev) := by
  -- Induction on the nodes that are left, with the place of the first of them generalised.
  induction hrest : ns.drop i generalizing i line with
  | nil =>
    have hlen : ns.length ≤ i := List.drop_eq_nil_iff.mp hrest
    rw [hrest, seek] at h
    exact .inr ⟨(Except.ok.inj h).symm, fun j hij hj => by omega⟩
  | cons x rest ih =>
    obtain ⟨hi, hx, htail⟩ := of_drop_eq_cons hrest
    rw [hrest, seek, hx, ← trail_take hi, htail] at h
    split at h
    · rename_i hfits
      split at h
      · rename_i hnum
        rw [compared_iff (hall _) (hall _)] at hnum
        exact .inl ⟨i, hi, le_rfl, (Except.ok.inj h).symm, hnum, fun k hik hki => by omega⟩
      · rename_i hnum
        rw [compared_iff (hall _) (hall _)] at hnum
        -- The rest is looked at in the same way.
        rcases ih (i + 1) h htail.symm with ⟨j, hj, hij, hr, hown, hbefore⟩ | ⟨hr, hno⟩
        · refine .inl ⟨j, hj, by omega, hr, hown, fun k hik hkj => ?_⟩
          rcases Nat.lt_or_eq_of_le hik with hlt | rfl
          · exact hbefore k hlt hkj
          · exact hnum
        · refine .inr ⟨hr, fun j hij hj => ?_⟩
          rcases Nat.lt_or_eq_of_le hij with hlt | rfl
          · exact hno j hlt hj
          · exact ⟨hfits, hnum⟩
    · cases h

variable {ns : List (Nat × VideoLink)}

/-- Each node is looked up in its own directory, or in one that has been looked at before, when
    its own has been as well; and the strings always fit. -/
def LooksRight (ns : List (Nat × VideoLink)) : Prop :=
  ∀ (i : Nat) (hi : i < ns.length), (trail (ns.take (i + 1))).Fits ∧
    ((trail (ns.take (i + 1))).dir = ns[i].2.dir ∨
      (∃ (j : Nat) (hj : j < ns.length), j < i ∧ (trail (ns.take (i + 1))).dir = ns[j].2.dir) ∧
        ∃ (j : Nat) (hj : j < ns.length), j < i ∧ ns[i].2.dir = ns[j].2.dir)

/-- Looking at a node then tells whether it is the one, if no earlier node is. -/
private theorem looked_iff (hgood : LooksRight ns) {i : Nat} (hi : i < ns.length)
    (hno : ∀ (j : Nat) (hj : j < ns.length), j < i →
      numbersAt files ns[j].2.dir ≠ some (bus, dev)) :
    numbersAt files (trail (ns.take (i + 1))).dir = some (bus, dev) ↔
      numbersAt files ns[i].2.dir = some (bus, dev) := by
  rcases (hgood i hi).2 with hown | ⟨⟨j, hj, hji, hlooked⟩, k, hk, hki, hown⟩
  · rw [hown]
  · rw [hlooked, hown]
    exact iff_of_false (hno j hj hji) (hno k hk hki)

/-- When all links are read right, the first device with the numbers is found. -/
private theorem seek_of_looksRight (hgood : LooksRight ns)
    (hstored : ∀ x ∈ ns, (files (busPath x.2.dir)).isSome ∧ (files (devPath x.2.dir)).isSome)
    (bus dev : UInt8) (line : Bytes) {i : Nat}
    (hno : ∀ (j : Nat) (hj : j < ns.length), j < i →
      numbersAt files ns[j].2.dir ≠ some (bus, dev)) :
    ∃ r, seek files bus dev (trail (ns.take i)) line (ns.drop i) = .ok r ∧
      ((∃ (j : Nat) (hj : j < ns.length), r = ns[j].1 ∧
          numbersAt files ns[j].2.dir = some (bus, dev) ∧
          ∀ (k : Nat) (hk : k < ns.length), k < j →
            numbersAt files ns[k].2.dir ≠ some (bus, dev)) ∨
        r = -1 ∧ ∀ (j : Nat) (hj : j < ns.length),
          numbersAt files ns[j].2.dir ≠ some (bus, dev)) := by
  induction hrest : ns.drop i generalizing i line with
  | nil =>
    have hlen : ns.length ≤ i := List.drop_eq_nil_iff.mp hrest
    exact ⟨-1, rfl, .inr ⟨rfl, fun j hj => hno j hj (by omega)⟩⟩
  | cons x rest ih =>
    obtain ⟨hi, hx, htail⟩ := of_drop_eq_cons hrest
    have hlook := looked_iff hgood hi hno
    -- The directory that is looked at is that of a node, so its files are there.
    obtain ⟨hbus, hdev⟩ : (files (busPath (trail (ns.take (i + 1))).dir)).isSome ∧
        (files (devPath (trail (ns.take (i + 1))).dir)).isSome := by
      rcases (hgood i hi).2 with hown | ⟨⟨j, hj, -, hlooked⟩, -⟩
      · rw [hown]
        exact hstored _ (List.getElem_mem hi)
      · rw [hlooked]
        exact hstored _ (List.getElem_mem hj)
    rw [seek, hx, ← trail_take hi, htail, if_pos (hgood i hi).1]
    by_cases hown : numbersAt files ns[i].2.dir = some (bus, dev)
    · -- It is the one, and no earlier node was.
      rw [if_pos ((compared_iff hbus hdev line).mpr (hlook.mpr hown))]
      exact ⟨_, rfl, .inl ⟨i, hi, rfl, hown, hno⟩⟩
    · rw [if_neg fun h => hown (hlook.mp ((compared_iff hbus hdev line).mp h)), ← htail]
      refine ih _ (fun j hj hji => ?_) htail.symm
      rcases Nat.lt_succ_iff_lt_or_eq.mp hji with hlt | rfl
      · exact hno j hj hlt
      · exact hown

end Seek

/-- When no link and no directory is shorter than an earlier one, nothing is left of them. -/
private theorem trail_of_growing {ns : List (Nat × VideoLink)}
    (hlink : ns.Pairwise fun x y => (x.2.text x.1).length ≤ (y.2.text y.1).length)
    (hdir : ns.Pairwise fun x y => x.2.dir.length ≤ y.2.dir.length) {i : Nat}
    (hi : i < ns.length) : trail (ns.take (i + 1)) = ⟨ns[i].2.text ns[i].1, ns[i].2.dir⟩ := by
  have hlink' := List.pairwise_iff_getElem.mp hlink
  have hdir' := List.pairwise_iff_getElem.mp hdir
  induction i with
  | zero =>
    -- The first name overwrites nothing.
    rw [trail_take hi, List.take_zero, trail, List.foldl_nil, Trail.next]
    dsimp only
    rw [overlay_of_le (Nat.zero_le _), overlay_of_le (Nat.zero_le _), VideoLink.parentDir_text]
  | succ i ih =>
    have hlt : i < ns.length := by omega
    rw [trail_take hi, ih hlt, Trail.next]
    dsimp only
    -- Each name covers the one before it.
    rw [overlay_of_le (hlink' i (i + 1) hlt hi (by omega)), VideoLink.parentDir_text,
      overlay_of_le (hdir' i (i + 1) hlt hi (by omega))]

/-- Links that grow are read right. -/
theorem looksRight_of_growing {ns : List (Nat × VideoLink)}
    (hlink : ns.Pairwise fun x y => (x.2.text x.1).length ≤ (y.2.text y.1).length)
    (hdir : ns.Pairwise fun x y => x.2.dir.length ≤ y.2.dir.length)
    (hfits : ∀ x ∈ ns, (Trail.mk (x.2.text x.1) x.2.dir).Fits) : LooksRight ns := by
  intro i hi
  rw [trail_of_growing hlink hdir hi]
  exact ⟨hfits _ (List.getElem_mem hi), .inl rfl⟩

/-! ## When the nodes are found -/

/-- The directories of the devices have both numbers. -/
def DirsStored (links : Nat → Option VideoLink) (files : Bytes → Option Attr) : Prop :=
  ∀ n l, n < v4l2DevicesIdMax → links n = some l →
    (files (busPath l.dir)).isSome ∧ (files (devPath l.dir)).isSome

/-- The node is found, whatever numbers the directories have and whichever are looked for. -/
def FindsNodes (links : Nat → Option VideoLink) : Prop :=
  ∀ files, DirsStored links files → ∀ bus dev,
    ∃ r, getV4l2Index (videoEnv links files) bus dev = .ok r ∧ IsNode links files bus dev r

/-- A number of one digit. -/
def digitAttr (c : UInt8) (h : (0 : UInt8) ∉ [c]) : Attr := ⟨[c], h, by simp [lineSize]⟩

/-- Every directory has the numbers 0 and 0, but this one has 1 and 2. -/
def markDir (dir path : Bytes) : Option Attr :=
  if path = busPath dir then some (digitAttr 49 (by decide))
  else if path = devPath dir then some (digitAttr 50 (by decide))
  else some (digitAttr 48 (by decide))

/-- Every attribute can be read. -/
private theorem isSome_markDir (dir path : Bytes) : (markDir dir path).isSome := by
  unfold markDir
  split
  · rfl
  · split <;> rfl

/-- The two attributes are in two files. -/
private theorem busPath_ne_devPath (d d' : Bytes) : busPath d ≠ devPath d' := by
  intro h
  have hnode := (List.append_inj' h (by decide)).2
  exact absurd hnode (by decide)

/-- One directory has the numbers of the device. -/
private theorem numbersAt_markDir {dir d : Bytes} :
    numbersAt (markDir dir) d = some (1, 2) ↔ d = dir := by
  constructor
  · intro h
    by_contra hne
    -- Of any other directory the file does not have the number.
    have hbus : busPath d ≠ busPath dir := by
      intro heq
      exact hne (List.append_cancel_left (List.append_inj' heq rfl).1)
    obtain ⟨dev, hdev⟩ := Option.isSome_iff_exists.mp (isSome_markDir dir (devPath d))
    rw [numbersAt, hdev, markDir, if_neg hbus, if_neg (busPath_ne_devPath d dir)] at h
    exact absurd (Prod.mk.inj (Option.some.inj h)).1 (by decide)
  · rintro rfl
    have hdev : devPath d ≠ busPath d := (busPath_ne_devPath d d).symm
    rw [numbersAt, markDir, if_pos rfl, markDir, if_neg hdev, if_pos rfl]
    decide

section Finds

variable {links : Nat → Option VideoLink}

/-- No two nodes have one number. -/
private theorem fst_inj {i j : Nat} (hi : i < (nodes links).length) (hj : j < (nodes links).length)
    (h : ((nodes links)[i].1 : Int) = (nodes links)[j].1) : i = j := by
  have hlt := fst_lt_iff hi hj
  have hgt := fst_lt_iff hj hi
  omega

/-- What is found where every directory but `dir` has other numbers. -/
theorem FindsNodes.mark (h : FindsNodes links) (dir : Bytes) :
    (∃ (i : Nat) (hi : i < (nodes links).length), (nodes links)[i].2.dir = dir ∧
      (trail ((nodes links).take (i + 1))).dir = dir ∧
      ∀ (j : Nat) (hj : j < (nodes links).length), j < i → (nodes links)[j].2.dir ≠ dir ∧
        (trail ((nodes links).take (j + 1))).dir ≠ dir) ∨
    ∀ (i : Nat) (hi : i < (nodes links).length), (nodes links)[i].2.dir ≠ dir ∧
      (trail ((nodes links).take (i + 1))).dir ≠ dir ∧
      (trail ((nodes links).take (i + 1))).Fits := by
  have hstored : DirsStored links (markDir dir) :=
    fun _ _ _ _ => ⟨isSome_markDir _ _, isSome_markDir _ _⟩
  obtain ⟨r, hget, hnode⟩ := h (markDir dir) hstored 1 2
  -- The result tells both where the loop has found the numbers and which node has them.
  rw [getV4l2Index_eq] at hget
  have hseek := seek_eq_ok (isSome_markDir dir) (nodes links) 0 hget
  rw [isNode_iff] at hnode
  simp only [numbersAt_markDir, ne_eq] at hseek hnode
  rcases hnode with ⟨i, hi, hr, hown, hbefore⟩ | ⟨hr, hnone⟩
  · rcases hseek with ⟨j, hj, -, hr', hlooked, hearlier⟩ | ⟨hr', -⟩
    · obtain rfl := fst_inj hi hj (hr.symm.trans hr')
      exact .inl ⟨i, hi, hown, hlooked, fun k hk hki =>
        ⟨hbefore k hk hki, hearlier k (Nat.zero_le k) hki⟩⟩
    · omega
  · rcases hseek with ⟨j, hj, -, hr', -⟩ | ⟨-, hall⟩
    · omega
    · exact .inr fun i hi => ⟨hnone i hi, (hall i (Nat.zero_le i) hi).2,
        (hall i (Nat.zero_le i) hi).1⟩

end Finds

/-- Every node is found exactly when each is looked up in its own directory, or else both this
    one and the one that is looked at have been looked at before, and the strings always fit:
    for every set of nodes and every links. -/
theorem findsNodes_iff (links : Nat → Option VideoLink) :
    FindsNodes links ↔ LooksRight (nodes links) := by
  constructor
  · -- Each directory in turn gets numbers that no other has, and the result is looked at.
    intro h i hi
    refine ⟨?_, ?_⟩
    · -- No node has a directory with a terminator in its name.
      rcases h.mark [0] with ⟨j, hj, hown, -⟩ | hall
      · exact absurd (hown ▸ List.mem_singleton_self 0) ((nodes links)[j].2.dirNul)
      · exact (hall i hi).2.2
    · by_contra hno
      obtain ⟨hne, hearlier⟩ := not_or.mp hno
      by_cases hdup : ∃ (j : Nat) (hj : j < (nodes links).length), j < i ∧
          (nodes links)[i].2.dir = (nodes links)[j].2.dir
      · -- The directory that is looked at belongs to no node up to here.
        rcases h.mark (trail ((nodes links).take (i + 1))).dir with ⟨j, hj, hown, -, hbefore⟩ | hall
        · rcases Nat.lt_trichotomy i j with hlt | rfl | hgt
          · exact (hbefore i hi hlt).2 rfl
          · exact hne hown.symm
          · exact hearlier ⟨⟨j, hj, hgt, hown.symm⟩, hdup⟩
        · exact (hall i hi).2.1 rfl
      · -- Its own directory is not looked at.
        rcases h.mark (nodes links)[i].2.dir with ⟨j, hj, hown, hlooked, hbefore⟩ | hall
        · rcases Nat.lt_trichotomy i j with hlt | rfl | hgt
          · exact (hbefore i hi hlt).1 rfl
          · exact hne hlooked
          · exact hdup ⟨j, hj, hgt, hown.symm⟩
        · exact (hall i hi).1 rfl
  · intro hgood files hstored bus dev
    have hfiles : ∀ x ∈ nodes links,
        (files (busPath x.2.dir)).isSome ∧ (files (devPath x.2.dir)).isSome := by
      intro x hx
      obtain ⟨hn, hl⟩ := mem_nodes.mp hx
      exact hstored x.1 x.2 hn hl
    obtain ⟨r, hseek, hr⟩ := seek_of_looksRight hgood hfiles bus dev [] (i := 0)
      (fun j hj hj0 => absurd hj0 (Nat.not_lt_zero j))
    exact ⟨r, getV4l2Index_eq.trans hseek, isNode_iff.mpr hr⟩

/-- Two cameras on one bus, the first of them behind a hub. -/
def twoCameras (n : Nat) : Option VideoLink :=
  if n = 0 then
    some ⟨ascii "../../devices/usb1/1-1.2", ascii "1-1.2:1.0", by decide, by decide, by decide⟩
  else if n = 1 then
    some ⟨ascii "../../devices/usb1/1-1", ascii "1-1:1.0", by decide, by decide, by decide⟩
  else none

/-- The second camera is looked up in the directory of the first, and is not found. -/
theorem not_findsNodes :
    ¬ (∀ links, FindsNodes links) ∧
    getV4l2Index (videoEnv twoCameras (markDir (ascii "../../devices/usb1/1-1"))) 1 2 =
      .ok (-1) := by
  -- The longer name of the first device is still behind that of the second.
  have hget : getV4l2Index (videoEnv twoCameras (markDir (ascii "../../devices/usb1/1-1"))) 1 2 =
      .ok (-1) := by
    rw [getV4l2Index_eq]
    decide +kernel
  refine ⟨fun h => ?_, hget⟩
  obtain ⟨r, hr, hnode⟩ := h twoCameras (markDir (ascii "../../devices/usb1/1-1"))
    (fun _ _ _ _ => ⟨isSome_markDir _ _, isSome_markDir _ _⟩) 1 2
  rw [hget] at hr
  obtain rfl := Except.ok.inj hr
  rcases hnode with ⟨n, l, hneg, -⟩ | ⟨-, hnone⟩
  · omega
  · -- The second device has a node, but the walk says that it has none.
    exact hnone 1 _ (by decide) rfl (numbersAt_markDir.mpr rfl)

end Udb.Spec