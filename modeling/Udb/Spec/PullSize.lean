import Udb.Spec.SafeCopy

/-!
# The announced size and the bytes that were read

`udb_debug_pullfile_init` takes the size from `fstat`, allocates that much and does
not look at what `fread` returns. When fewer bytes arrive, the rest of the block
keeps what the heap had there, and the pullouts hand it to the client.

`Delivers` says of one pullout that it copies a range of the bytes that were read
and nothing else; `DeliversRead` says so of a whole sequence.

## Key results

- `deliversRead_of_handing`: with the right size every pullout stays in the bytes
  that were read
- `pull_size_iff`: when `PULL_FILE_INIT` announces what it has read
-/

namespace Udb.Spec

open CMem Udb.Native

/-- What `fread` stores of a file in a block of the size that `fstat` reports. -/
def readBytes (f : ReadFile) : Bytes := f.data.take f.stSize

/-! ## What the pullouts deliver -/

/-- A pullout that copies a range delivers that range of the bytes that were read. -/
def Delivers (got : Bytes) (q : PulloutReq .pullFile) (s s' : Server) : Prop :=
  match copied .pullFile s q.cpSize with
  | none => q.serve s = .ok (s', q.zeros)
  | some (off, len) =>
    off + len ≤ got.length ∧ q.serve s = .ok (s', q.reply ((got.drop off).take len))

/-- So does each pullout of a sequence. -/
def DeliversRead (got : Bytes) : List (PulloutReq .pullFile) → Server → Prop
  | [], _ => True
  | q :: qs, s => ∃ s', Delivers got q s s' ∧ DeliversRead got qs s'

/-- The controller is inside a content that is as long as the bytes that were read: what is still
    to come is what is behind its cursor. -/
structure Handing (got : Bytes) (s : Server) (rest : Bytes) : Prop where
  reading : Reading .pullFile got.length s rest
  place : rest = [] ∨ rest = got.drop (Channel.pullFile.cpOffset s).toNat

section Handing

variable {got rest : Bytes} {s : Server}

/-- A size behind the end copies nothing. -/
private theorem copied_eq_none {c : UInt32}
    (hgt : Channel.pullFile.usedSize s < Channel.pullFile.cpOffset s + c) :
    copied .pullFile s c = none := by
  unfold copied pulloutRange
  rw [if_pos hgt, ite_self]

/-- One that is granted copies from the cursor on. -/
private theorem copied_eq_some {c : UInt32} (hauth : s.udbAuthOk = true)
    (hle : Channel.pullFile.cpOffset s + c ≤ Channel.pullFile.usedSize s) :
    copied .pullFile s c = some ((Channel.pullFile.cpOffset s).toNat, c.toNat) := by
  unfold copied pulloutRange
  rw [if_pos hauth, if_neg (UInt32.not_lt.mpr hle)]

/-- What a granted request leaves is behind the new cursor. -/
theorem Handing.afterPull (h : Handing got s rest) (layer : UInt8) {c : UInt32}
    (hle : c.toNat ≤ rest.length) :
    Handing got (afterPull .pullFile layer c s) (rest.drop c.toNat) := by
  refine ⟨h.reading.afterPull layer hle, ?_⟩
  have hsum := h.reading.holds.toNat_add hle
  have hsize := h.reading.holds.size
  unfold Spec.afterPull
  split
  · -- The last byte is gone.
    rename_i hend
    rw [hend] at hsum
    left
    apply List.drop_eq_nil_of_le
    omega
  · rcases h.place with hnil | hdrop
    · left
      rw [hnil, List.drop_nil]
    · right
      rw [Channel.cpOffset_advance, hsum, hdrop, List.drop_drop]

/-- A request for no more than is left delivers it. -/
private theorem Handing.delivers (h : Handing got s rest) (q : PulloutReq .pullFile)
    (hle : q.cpSize.toNat ≤ rest.length) :
    Delivers got q s (Spec.afterPull .pullFile q.layer q.cpSize s) := by
  have hsum := h.reading.holds.toNat_add hle
  have hsize := h.reading.holds.size
  have hused := h.reading.used_le
  have hcp : Channel.pullFile.cpOffset s + q.cpSize ≤ Channel.pullFile.usedSize s := by
    rw [UInt32.le_iff_toNat_le, hsum]
    omega
  unfold Delivers
  rw [copied_eq_some h.reading.auth hcp]
  refine ⟨by omega, ?_⟩
  rw [h.reading.granted q hle]
  rcases h.place with hnil | hdrop
  · -- At the end only a request for nothing is granted.
    have hzero : q.cpSize.toNat = 0 := by
      rw [hnil, List.length_nil] at hle
      omega
    rw [hzero, List.take_zero, List.take_zero]
  · rw [hdrop]

/-- One request. -/
theorem Handing.serve (h : Handing got s rest) (q : PulloutReq .pullFile)
    (hlim : got.length + layerProtSize q.layer ≤ 2 ^ 32) :
    ∃ s' rest', Delivers got q s s' ∧ Handing got s' rest' := by
  by_cases hlt : rest.length < q.cpSize.toNat
  · -- More than is left is refused: the sum does not wrap, so the comparison sees it.
    have hsize := h.reading.holds.size
    have hsum := h.reading.sum_lt q hlim
    have hgt : Channel.pullFile.usedSize s < Channel.pullFile.cpOffset s + q.cpSize := by
      rw [UInt32.lt_iff_toNat_lt, UInt32.toNat_add, Nat.mod_eq_of_lt hsum]
      omega
    refine ⟨s.setProtSize q.layer, rest, ?_, h.reading.setProtSize q.layer, ?_⟩
    · unfold Delivers
      rw [copied_eq_none hgt]
      exact h.reading.refused q hlim hlt
    · rw [Channel.cpOffset_setProtSize]
      exact h.place
  · have hle : q.cpSize.toNat ≤ rest.length := by omega
    exact ⟨_, _, h.delivers q hle, h.afterPull q.layer hle⟩

/-- With the right size every pullout stays in the bytes that were read. -/
theorem deliversRead_of_handing (hlim : got.length + 1470 ≤ 2 ^ 32)
    (reqs : List (PulloutReq .pullFile)) (h : Handing got s rest) : DeliversRead got reqs s := by
  -- Induction on the requests; `Handing` goes from one to the next.
  induction reqs generalizing s rest with
  | nil => trivial
  | cons q qs ih =>
    have hp := layerProtSize_bounds q.layer
    obtain ⟨s', rest', hq, h'⟩ := h.serve q (by omega)
    exact ⟨s', hq, ih h'⟩

/-! ## Sizes near the end of the 32-bit range -/

/-- A request for `c` bytes over the network. -/
def pulloutOf (c : UInt32) (hc : c.toNat ≤ 1470) : PulloutReq .pullFile where
  os := willing [] []
  layer := udbLayerNet
  cmd := padTo 1470 (channelHeader .pullFilePullout ++ le32 c)
  cpSize := c
  chan := rfl
  field := load32_header c
  size_le := hc

/-- Requests for one byte move the cursor to any place in front of the end. -/
private theorem exists_handing (n : Nat) (h : Handing got s rest) (hn : n ≤ rest.length)
    (tail : List (PulloutReq .pullFile))
    (hdel : DeliversRead got (List.replicate n (pulloutOf 1 (by decide)) ++ tail) s) :
    ∃ s', Handing got s' (rest.drop n) ∧ DeliversRead got tail s' := by
  -- Induction on the number of requests; each leaves one byte less to come.
  induction n generalizing s rest with
  | zero => exact ⟨s, by rwa [List.drop_zero], hdel⟩
  | succ n ih =>
    obtain ⟨s₁, hq, hrest⟩ := hdel
    have hone : (pulloutOf 1 (by decide)).cpSize.toNat ≤ rest.length := by
      show 1 ≤ rest.length
      omega
    -- The state behind the request is the one that a granted request leaves.
    obtain rfl : s₁ = afterPull .pullFile udbLayerNet 1 s := by
      have hserve := h.reading.granted (pulloutOf 1 (by decide)) hone
      unfold Delivers at hq
      split at hq
      · rw [hserve] at hq
        exact (Prod.mk.inj (Except.ok.inj hq)).1.symm
      · rw [hserve] at hq
        exact (Prod.mk.inj (Except.ok.inj hq.2)).1.symm
    have h₁ := h.afterPull udbLayerNet (c := 1) hone
    obtain ⟨s', h', hdel'⟩ := ih h₁ (by rw [List.length_drop]; show n ≤ _ - 1; omega) hrest
    rw [List.drop_drop] at h'
    exact ⟨s', by rwa [Nat.add_comm n 1], hdel'⟩

/-- In a content that nearly fills the 32-bit range, a request near the end wraps and reaches
    behind it. -/
private theorem exists_not_deliversRead (hlim : 2 ^ 32 < got.length + 1470) (h : Handing got s got)
    :
    ∃ reqs, ¬ DeliversRead got reqs s := by
  refine ⟨List.replicate (got.length - 1) (pulloutOf 1 (by decide)) ++
    [pulloutOf 1470 (by decide)], fun hdel => ?_⟩
  obtain ⟨s', h', s'', hq, -⟩ := exists_handing _ h (by omega) _ hdel
  have hsize := h'.reading.holds.size
  have hused := h'.reading.used_le
  have hlt := (Channel.pullFile.usedSize s').toNat_lt
  rw [List.length_drop] at hsize
  -- One byte is left, so the cursor is in front of it and the sum passes the comparison.
  have hcp : (Channel.pullFile.cpOffset s').toNat = got.length - 1 := by
    rcases h'.place with hnil | hdrop
    · have hlen := congrArg List.length hnil
      rw [List.length_drop, List.length_nil] at hlen
      omega
    · have hlen := congrArg List.length hdrop
      rw [List.length_drop, List.length_drop] at hlen
      omega
  have hpass : Channel.pullFile.cpOffset s' + 1470 ≤ Channel.pullFile.usedSize s' := by
    have hle : Channel.pullFile.cpOffset s' ≤ Channel.pullFile.usedSize s' := by
      rw [UInt32.le_iff_toNat_le]
      omega
    apply wrapped_le hle
    show _ ≤ _ + 1470
    omega
  unfold Delivers at hq
  rw [show (pulloutOf 1470 (by decide)).cpSize = 1470 from rfl,
    copied_eq_some h'.reading.auth hpass] at hq
  have hin : (Channel.pullFile.cpOffset s').toNat + 1470 ≤ got.length := hq.1
  omega

end Handing

/-! ## The first request -/

/-- `PULL_FILE_INIT` announces the number of bytes that it has read, in its answer and in
    `used_size`, and whatever pullouts follow deliver these bytes. -/
def AnnouncesRead (os : Os) (layer : UInt8) (cmd : Bytes) (f : ReadFile) (s : Server) : Prop :=
  ∃ s', request os layer cmd s =
      .ok (s', padTo (layerProtSize layer) (le32 s'.udbPullfileCtrl.usedSize)) ∧
    s'.udbPullfileCtrl.usedSize.toNat = (readBytes f).length ∧
    ∀ reqs : List (PulloutReq .pullFile), DeliversRead (readBytes f) reqs s'

section Init

variable {os : Os} {layer : UInt8} {path : Bytes} {f : ReadFile} {s : Server}

/-- The block that `fread` fills starts with what it has read. -/
private theorem readBlock_eq_ok {block : Option Bytes} (h : readBlock os f = .ok block)
    (hne : readBytes f ≠ []) : ∃ b, block = some (readBytes f ++ b) := by
  unfold readBlock at h
  dsimp only at h
  split at h
  · split at h
    · rename_i hnil
      exact absurd hnil hne
    · cases h
  · exact ⟨_, (Except.ok.inj h).symm⟩

/-- A file is read when it has nothing to store or the block is there. -/
private theorem readBlock_returns : (∃ block, readBlock os f = .ok block) ↔
    readBytes f = [] ∨ os.malloc f.stSize ≠ none := by
  unfold readBlock readBytes
  dsimp only
  split
  · -- Without a block, only a file of no bytes can be read into it.
    rename_i hnull
    split
    · rename_i hnil
      simp [hnil]
    · rename_i hne
      simp [hne, hnull]
  · rename_i garbage hblock
    simp [hblock]

/-- With the right size the pull is at the start of the bytes that were read. -/
private theorem handing_pulled (hauth : s.udbAuthOk = true) {block : Option Bytes}
    (hblock : readBlock os f = .ok block)
    (hsize : (UInt32.ofNat f.stSize).toNat = (readBytes f).length) :
    Handing (readBytes f) (pulled layer path f block s) (readBytes f) := by
  have hlt := (UInt32.ofNat f.stSize).toNat_lt
  have hused : UInt32.ofNat f.stSize = UInt32.ofNat (readBytes f).length := by
    rw [← UInt32.toNat_inj, hsize, UInt32.toNat_ofNat_of_lt' (by rw [← hsize]; exact hlt)]
  have hstored : Stored .pullFile (pulled layer path f block s) (readBytes f) :=
    Stored.intro hauth rfl hused (by omega) (readBlock_eq_ok hblock)
  exact ⟨hstored.reading, .inr rfl⟩

/-- `PULL_FILE_INIT` announces what it has read exactly when its block could be allocated or
    nothing was read, the bytes that were read are as many as the low 32 bits of the reported size
    say, and they end 1470 bytes in front of the end of the 32-bit range: for every layer, every
    authenticated state and every path that can be opened. -/
theorem pull_size_iff (os : Os) (layer : UInt8) (s : Server) (hauth : s.udbAuthOk = true)
    (cmd path : Bytes) (hcmd : cmd[3]? = some UdbChanId.pullFileInit.toByte)
    (hpath : cstrAt cmd 4 = .ok path) (f : ReadFile) (hopen : os.fopenRead path = some f) :
    AnnouncesRead os layer cmd f s ↔
      (readBytes f = [] ∨ os.malloc f.stSize ≠ none) ∧
        (readBytes f).length = f.stSize % 2 ^ 32 ∧ (readBytes f).length + 1470 ≤ 2 ^ 32 := by
  have hreq := request_pullfileInit_eq layer hauth hcmd hpath hopen
  have hsize : (UInt32.ofNat f.stSize).toNat = f.stSize % 2 ^ 32 := UInt32.toNat_ofNat'
  rw [← readBlock_returns]
  constructor
  · intro h
    obtain ⟨s', hok, hused, hdel⟩ := h
    -- The size in the controller is the reported one, cut to 32 bits.
    rw [hreq] at hok
    obtain ⟨block, hblock, hok⟩ := bind_eq_ok.mp hok
    obtain ⟨rfl, -⟩ := Prod.mk.inj (Except.ok.inj hok)
    have hused' : (UInt32.ofNat f.stSize).toNat = (readBytes f).length := hused
    refine ⟨⟨block, hblock⟩, by omega, ?_⟩
    -- Otherwise some sequence of pullouts reaches behind what was read.
    by_contra hlim
    have hstart : Handing (readBytes f) (pulled layer path f block s) (readBytes f) :=
      handing_pulled hauth hblock hused'
    obtain ⟨reqs, hnot⟩ := exists_not_deliversRead (by omega) hstart
    exact hnot (hdel reqs)
  · intro h
    obtain ⟨⟨block, hblock⟩, hread, hlim⟩ := h
    rw [hblock, ok_bind] at hreq
    have hused : (UInt32.ofNat f.stSize).toNat = (readBytes f).length := by omega
    exact ⟨_, hreq, hused, fun reqs =>
      deliversRead_of_handing hlim reqs (handing_pulled hauth hblock hused)⟩

end Init

/-- The first packet of a pull of `f`. -/
def pullInitOfF : Bytes := padTo 64 (channelHeader .pullFileInit ++ ascii "f")

/-- The path is in the packet. -/
private theorem cstrAt_pullInitOfF : cstrAt pullInitOfF 4 = .ok (ascii "f") :=
  cstrAt_padTo (a := channelHeader .pullFileInit) (by decide) (by decide)

/-- A file of three bytes. -/
theorem pull_size_iff_three :
    AnnouncesRead (willing [1, 0, 3] []) udbLayerDef pullInitOfF ⟨3, [1, 0, 3]⟩
      (authed fun _ => none) :=
  (pull_size_iff (willing [1, 0, 3] []) udbLayerDef (authed fun _ => none) rfl pullInitOfF
    (ascii "f") rfl cstrAt_pullInitOfF ⟨3, [1, 0, 3]⟩ rfl).mpr
    ⟨.inr (by simp [willing]), by decide, by decide⟩

/-- `fstat` reports five bytes and `fread` delivers three: five are announced. -/
theorem not_pull_size :
    ¬ ∀ (os : Os) (layer : UInt8) (s : Server), s.udbAuthOk = true → ∀ cmd path : Bytes,
      cmd[3]? = some UdbChanId.pullFileInit.toByte → cstrAt cmd 4 = .ok path →
        ∀ f : ReadFile, os.fopenRead path = some f → AnnouncesRead os layer cmd f s := by
  intro h
  -- `stat` has seen five bytes, and three are read.
  let f : ReadFile := ⟨5, [1, 0, 3]⟩
  let shrunk : Os := { willing [] [] with fopenRead := fun _ => some f }
  have hauth : (authed fun _ => none).udbAuthOk = true := rfl
  obtain ⟨s', hok, hused, -⟩ := h shrunk udbLayerDef (authed fun _ => none) hauth pullInitOfF
    (ascii "f") rfl cstrAt_pullInitOfF f rfl
  rw [request_pullfileInit_eq udbLayerDef hauth rfl cstrAt_pullInitOfF
    (rfl : shrunk.fopenRead (ascii "f") = some f)] at hok
  obtain ⟨block, -, hok⟩ := bind_eq_ok.mp hok
  obtain ⟨rfl, -⟩ := Prod.mk.inj (Except.ok.inj hok)
  -- The size that is used is that of `stat`.
  have hfive : (UInt32.ofNat 5).toNat = 3 := hused
  revert hfive
  decide

end Udb.Spec
