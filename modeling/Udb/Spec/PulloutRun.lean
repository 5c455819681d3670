import Udb.Spec.PullFile

/-!
# Sequences of pullout requests

After a first request has stored a content, any sequence of pullout requests on
its channel reads it as `Cursor.pulls` reads a stream. `Reading` is the invariant
of such a run; it fails only for sizes that no client asks for, which
`pulloutRange` lets through.

## Key results

- `serveAll_reading`: a run of requests follows the abstract stream
-/

namespace Udb.Spec

open CMem Udb.Native

/-! ## Runs -/

/-- A pullout request on a channel, for no more than a reply holds. -/
structure PulloutReq (ch : Channel) where
  os : Os
  layer : UInt8
  cmd : Bytes
  cpSize : UInt32
  chan : cmd[3]? = some ch.pulloutId.toByte
  field : load32 cmd 4 = .ok cpSize
  size_le : cpSize.toNat ≤ layerProtSize layer

namespace PulloutReq

variable {ch : Channel}

/-- The request, served. -/
def serve (q : PulloutReq ch) (s : Server) : Except Fault (Server × Bytes) :=
  request q.os q.layer q.cmd s

/-- The reply that delivers `got`. -/
def reply (q : PulloutReq ch) (got : Bytes) : Bytes := padTo (layerProtSize q.layer) got

/-- The reply that delivers nothing. -/
def zeros (q : PulloutReq ch) : Bytes := List.replicate (layerProtSize q.layer) 0

/-- A reply with nothing in it. -/
private theorem reply_nil (q : PulloutReq ch) : q.reply [] = q.zeros := by
  simp [reply, zeros, padTo]

end PulloutReq

/-- Requests served one after the other: the last state and the replies. -/
def serveAll {ch : Channel} : List (PulloutReq ch) → Server → Except Fault (Server × List Bytes)
  | [], s => pure (s, [])
  | q :: qs, s => do
    let (s, reply) ← q.serve s
    let (s, replies) ← serveAll qs s
    pure (s, reply :: replies)

/-- The invariant of a run on a content of `len` bytes of which `rest` is still to come. -/
structure Reading (ch : Channel) (len : Nat) (s : Server) (rest : Bytes) : Prop where
  auth : s.udbAuthOk = true
  holds : Holds ch s rest
  used_le : (ch.usedSize s).toNat ≤ len
  empty : rest = [] → len = 0 ∨ ch.Empty s

section Run

variable {ch : Channel} {len : Nat} {s : Server} {rest content : Bytes}

/-- Behind the first request the whole content is to be read. -/
theorem Stored.reading (h : Stored ch s content) : Reading ch content.length s content where
  auth := h.auth
  holds := h.holds
  used_le := by
    have := h.holds.size
    rw [h.start, UInt32.toNat_zero] at this
    omega
  empty := fun hnil => .inl (by rw [hnil]; rfl)

/-- The controller shows that nothing is left. -/
private theorem Reading.empty_iff (h : Reading ch len s rest) :
    ch.usedSize s = 0 ∧ ch.cpOffset s = 0 ↔ rest = [] := by
  have hsize := h.holds.size
  constructor
  · -- Nothing is left where size and cursor agree.
    rintro ⟨hu, hc⟩
    rw [hu, hc, UInt32.toNat_zero] at hsize
    exact List.eq_nil_of_length_eq_zero (by omega)
  · intro hnil
    rcases h.empty hnil with h0 | he
    · -- A content that was empty from the start.
      have hused := h.used_le
      rw [h0] at hused
      have hu : ch.usedSize s = 0 := by
        rw [← UInt32.toNat_inj, UInt32.toNat_zero]
        omega
      refine ⟨hu, ?_⟩
      rw [← UInt32.toNat_inj, UInt32.toNat_zero]
      rw [hu, UInt32.toNat_zero] at hsize
      omega
    · -- One that was read to its end, which has reset the controller.
      exact ⟨he.1, he.2.1⟩

/-- A request for more than is left does not wrap, while no cursor can come that far. -/
theorem Reading.sum_lt (h : Reading ch len s rest) (q : PulloutReq ch)
    (hlim : len + layerProtSize q.layer ≤ 2 ^ 32) :
    (ch.cpOffset s).toNat + q.cpSize.toNat < 2 ^ 32 := by
  have hsize := h.holds.size
  have hused := h.used_le
  have hle := q.size_le
  have hp := layerProtSize_bounds q.layer
  by_cases hnil : rest = []
  · -- At the end the cursor is back at the start.
    have hcp : (ch.cpOffset s).toNat = 0 := by
      rw [(h.empty_iff.mpr hnil).2, UInt32.toNat_zero]
    omega
  · have hpos := List.length_pos_of_ne_nil hnil
    omega

/-- A request for more than there is gets zeros and moves nothing. -/
theorem Reading.refused (h : Reading ch len s rest) (q : PulloutReq ch)
    (hlim : len + layerProtSize q.layer ≤ 2 ^ 32) (hlt : rest.length < q.cpSize.toNat) :
    q.serve s = .ok (s.setProtSize q.layer, q.zeros) :=
  request_refused h.auth h.holds q.chan q.field hlt (h.sum_lt q hlim)

/-- One for what is there gets it. -/
theorem Reading.granted (h : Reading ch len s rest) (q : PulloutReq ch)
    (hle : q.cpSize.toNat ≤ rest.length) :
    q.serve s = .ok (afterPull ch q.layer q.cpSize s, q.reply (rest.take q.cpSize.toNat)) :=
  request_granted h.auth h.holds q.chan q.field hle q.size_le

/-- A refused request leaves the stream as it is. -/
theorem Reading.setProtSize (h : Reading ch len s rest) (layer : UInt8) :
    Reading ch len (s.setProtSize layer) rest where
  auth := h.auth
  holds := ⟨by simpa using h.holds.size, by simpa using h.holds.content⟩
  used_le := by simpa using h.used_le
  empty := fun hnil => (h.empty hnil).imp_right fun he => Channel.empty_setProtSize he layer

/-- The size never grows. -/
private theorem usedSize_afterPull_le (ch : Channel) (layer : UInt8) (c : UInt32) (s : Server) :
    (ch.usedSize (afterPull ch layer c s)).toNat ≤ (ch.usedSize s).toNat := by
  unfold afterPull
  split <;> simp

/-- The rest is to be read behind a pullout. -/
theorem Reading.afterPull (h : Reading ch len s rest) (layer : UInt8) {c : UInt32}
    (hle : c.toNat ≤ rest.length) :
    Reading ch len (afterPull ch layer c s) (rest.drop c.toNat) where
  auth := by simpa using h.auth
  holds := h.holds.afterPull hle
  used_le := (usedSize_afterPull_le ch layer c s).trans h.used_le
  empty := by
    intro hnil
    have hlen := congrArg List.length hnil
    rw [List.length_drop, List.length_nil] at hlen
    exact .inr (empty_afterPull h.holds (by omega))

/-- One request follows one pull of the abstract stream. -/
theorem Reading.serve (h : Reading ch len s rest) (q : PulloutReq ch)
    (hlim : len + layerProtSize q.layer < 2 ^ 32) :
    ∃ s', q.serve s = .ok (s', q.reply (Cursor.pull rest q.cpSize.toNat).1) ∧
      Reading ch len s' (Cursor.pull rest q.cpSize.toNat).2 := by
  by_cases hlt : rest.length < q.cpSize.toNat
  · rw [Cursor.pull_of_lt hlt, q.reply_nil]
    exact ⟨_, h.refused q hlim.le hlt, h.setProtSize q.layer⟩
  · rw [Cursor.pull_of_le (by omega)]
    exact ⟨_, h.granted q (by omega), h.afterPull q.layer (by omega)⟩

/-- A run of requests follows the abstract stream. -/
theorem serveAll_reading (reqs : List (PulloutReq ch)) (h : Reading ch len s rest)
    (hlim : ∀ q ∈ reqs, len + layerProtSize q.layer < 2 ^ 32) :
    ∃ s', serveAll reqs s = .ok (s', List.zipWith PulloutReq.reply reqs
        (Cursor.pulls rest (reqs.map fun q => q.cpSize.toNat)).1) ∧
      Reading ch len s' (Cursor.pulls rest (reqs.map fun q => q.cpSize.toNat)).2 := by
  -- Induction on the requests; `Reading` carries the stream from one to the next.
  induction reqs generalizing s rest with
  | nil => exact ⟨s, rfl, h⟩
  | cons q qs ih =>
    obtain ⟨s₁, hq, h₁⟩ := h.serve q (hlim q List.mem_cons_self)
    obtain ⟨s', hqs, h'⟩ := ih h₁ fun q' hq' => hlim q' (List.mem_cons_of_mem _ hq')
    refine ⟨s', ?_, h'⟩
    simp only [serveAll, hq, ok_bind, hqs, pure_eq_ok]
    rfl

/-- Pullout is a byte-stream cursor, on each of the three channels and for every sequence of
    requests: the replies are the pieces of the abstract stream with zeros behind them, the
    pieces are a prefix of the content, and the controller is empty exactly when nothing is left.
    The next request, whatever it is, is refused and changes nothing but the protocol size, or
    gets exactly the next bytes; once nothing is left it gets nothing. -/
theorem pullout_refines_cursor (ch : Channel) (s : Server) (content : Bytes)
    (h : Stored ch s content) (reqs : List (PulloutReq ch))
    (hlim : ∀ q ∈ reqs, content.length + layerProtSize q.layer < 2 ^ 32) :
    ∃ s' got rest, (got, rest) = Cursor.pulls content (reqs.map fun q => q.cpSize.toNat) ∧
      serveAll reqs s = .ok (s', List.zipWith PulloutReq.reply reqs got) ∧
      got.flatten <+: content ∧
      (ch.usedSize s' = 0 ∧ ch.cpOffset s' = 0 ↔ rest = []) ∧
      (content ≠ [] → rest = [] → ch.Empty s') ∧
      ∀ q : PulloutReq ch, content.length + layerProtSize q.layer < 2 ^ 32 →
        (rest.length < q.cpSize.toNat → q.serve s' = .ok (s'.setProtSize q.layer, q.zeros)) ∧
        (q.cpSize.toNat ≤ rest.length →
          ∃ s'', q.serve s' = .ok (s'', q.reply (rest.take q.cpSize.toNat))) ∧
        (rest = [] → ∃ s'', q.serve s' = .ok (s'', q.zeros)) := by
  obtain ⟨s', hrun, h'⟩ := serveAll_reading reqs h.reading hlim
  -- What holds behind the run holds for the next request as well.
  refine ⟨s', _, _, rfl, hrun, ⟨_, Cursor.pulls_flatten_append _ _⟩, h'.empty_iff, ?_, ?_⟩
  · intro hne hnil
    refine (h'.empty hnil).resolve_left fun h0 => hne (List.eq_nil_of_length_eq_zero h0)
  · intro q hq
    refine ⟨h'.refused q hq.le, fun hle => ⟨_, h'.granted q hle⟩, fun hnil => ?_⟩
    obtain ⟨s'', hserve, -⟩ := h'.serve q hq
    have hpull : (Cursor.pull ([] : Bytes) q.cpSize.toNat).1 = [] := by
      unfold Cursor.pull
      split <;> simp
    rw [hnil, hpull, q.reply_nil] at hserve
    exact ⟨s'', hserve⟩

end Run

/-- A file of three bytes, pulled and not yet handed out. -/
def pulledThree : Server :=
  { authed fun _ => none with udbPullfileCtrl := ⟨some [1, 2, 3], 3, 0⟩ }

/-- A request for two bytes. -/
def pullTwo : PulloutReq .pullFile where
  os := willing [] []
  layer := udbLayerDef
  cmd := padTo 64 (channelHeader .pullFilePullout ++ le32 2)
  cpSize := 2
  chan := rfl
  field := load32_header 2
  size_le := by decide

/-- Two pullouts of two bytes out of three. -/
theorem pullout_refines_cursor_two :
    ∃ s', serveAll [pullTwo, pullTwo] pulledThree =
      .ok (s', [padTo 64 [1, 2], padTo 64 []]) := by
  have hstored : Stored .pullFile pulledThree [1, 2, 3] :=
    ⟨rfl, rfl, rfl, fun _ => ⟨[1, 2, 3], rfl, by decide, rfl⟩⟩
  -- Three bytes and a packet are far from `2 ^ 32`.
  have hlim : ∀ q ∈ [pullTwo, pullTwo], [1, 2, 3].length + layerProtSize q.layer < 2 ^ 32 := by
    intro q hq
    have := layerProtSize_bounds q.layer
    simp only [List.length_cons, List.length_nil]
    omega
  obtain ⟨s', got, rest, hpulls, hrun, -⟩ :=
    pullout_refines_cursor .pullFile pulledThree [1, 2, 3] hstored [pullTwo, pullTwo] hlim
  obtain ⟨rfl, rfl⟩ := Prod.mk.inj hpulls
  exact ⟨s', hrun⟩

end Udb.Spec
