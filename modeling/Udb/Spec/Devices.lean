import Udb.Native.UsbDev

/-!
# Choosing a device by its serial number

The loops over `/sys/bus/usb/devices` look at every entry, and an entry without ids
shows them the text that was read last. It is the same text for both ids, and no
supported device has one number for both, so only the supported devices count.

`convert_sn_to_index` returns how many it has counted, also when none of them has
the serial number. The command then goes to the last device of the list.

## Key results

- `convert_sim`, `select_sim`: the loops walk over the supported devices
- `selectsBySn_iff`: when the option `-s` chooses the right device or none
-/

namespace Udb.Spec

open CMem Walk Udb.Native

/-! ## Supported devices -/

/-- Both ids are there and the list has them. -/
def supported (e : SysfsEntry) : Bool :=
  match e.files "idVendor", e.files "idProduct" with
  | some vid, some pid => inSupportList (hex16 vid.value) (hex16 pid.value)
  | _, _ => false

/-- The supported devices, in the order of the directory. -/
def devices (dir : List SysfsEntry) : List SysfsEntry := matter SysfsEntry.hidden supported dir

/-- The text of an attribute, empty if there is none. -/
def nodeText (e : SysfsNode) (attr : String) : Bytes :=
  ((e.files attr).map Attr.value).getD []

def attrText (e : SysfsEntry) (attr : String) : Bytes := nodeText e.toSysfsNode attr

/-- What `usb_dev` should hold for a device. -/
def deviceOf (e : SysfsEntry) : UsbDev where
  vid := hex16 (attrText e "idVendor")
  pid := hex16 (attrText e "idProduct")
  busnum := dec8 (attrText e "busnum")
  devnum := dec8 (attrText e "devnum")
  usbclass :=
    getSupportListUsbclass (hex16 (attrText e "idVendor")) (hex16 (attrText e "idProduct"))
  backend :=
    getSupportListBackend (hex16 (attrText e "idVendor")) (hex16 (attrText e "idProduct"))
  devSn := attrText e "serial"

variable {e : SysfsEntry}

/-- An attribute that is not there leaves the buffer as it was. -/
theorem readSysfsNode_file (e : SysfsEntry) (attr : String) {size : Nat} (hsize : lineSize ≤ size)
    (buf : Bytes) :
    readSysfsNode (e.file attr) size buf = .ok (((e.files attr).map Attr.value).getD buf) :=
  readSysfsNode_attr (e.files attr) hsize buf

/-- A buffer that has been cleared holds the attribute's own text. -/
theorem readSysfsNode_clear (e : SysfsNode) (attr : String) (buf : Bytes) :
    readSysfsNode (e.file attr) lineSize (clear buf) = .ok (nodeText e attr) :=
  readSysfsNode_attr (e.files attr) le_rfl []

/-- The line that an attribute leaves when it is there does not depend on what was there. -/
theorem getD_of_isSome {attr : String} (h : (e.files attr).isSome) (buf : Bytes) :
    ((e.files attr).map Attr.value).getD buf = attrText e attr := by
  obtain ⟨a, ha⟩ := Option.isSome_iff_exists.mp h
  rw [attrText, nodeText, ha]
  rfl

/-- The second id is read over the first, which stays if there is no second. -/
private theorem readIds_eq (e : SysfsEntry) (line : Bytes) :
    readIds e line = .ok (hex16 (((e.files "idVendor").map Attr.value).getD line),
      hex16 (((e.files "idProduct").map Attr.value).getD
        (((e.files "idVendor").map Attr.value).getD line)),
      ((e.files "idProduct").map Attr.value).getD
        (((e.files "idVendor").map Attr.value).getD line)) := by
  simp only [readIds, readSysfsNode_file e _ le_rfl, ok_bind, pure_eq_ok]

/-- The ids that are read from an entry are not supported, unless the entry is. -/
theorem readIds_pass (h : supported e = false) (line : Bytes) :
    ∃ vid pid line', readIds e line = .ok (vid, pid, line') ∧ inSupportList vid pid = false := by
  refine ⟨_, _, _, readIds_eq e line, ?_⟩
  have hids := e.ids
  unfold supported at h
  cases hvid : e.files "idVendor" with
  | none =>
    -- Both ids are read from the text that was there.
    have hpid : e.files "idProduct" = none := by simpa [hvid] using hids
    rw [hpid]
    exact inSupportList_self _
  | some vid =>
    obtain ⟨pid, hpid⟩ : ∃ pid, e.files "idProduct" = some pid :=
      Option.isSome_iff_exists.mp (by rw [← hids, hvid]; rfl)
    rw [hvid, hpid] at h
    rw [hpid]
    exact h

/-- A supported device has its ids and its place on the bus. -/
theorem supported_files (h : supported e = true) :
    ((e.files "idVendor").isSome ∧ (e.files "idProduct").isSome) ∧
      ((e.files "busnum").isSome ∧ (e.files "devnum").isSome) ∧
      inSupportList (deviceOf e).vid (deviceOf e).pid = true := by
  unfold supported at h
  split at h
  · rename_i vid pid hvid hpid
    refine ⟨⟨by rw [hvid]; rfl, by rw [hpid]; rfl⟩, e.located vid pid hvid hpid h, ?_⟩
    simpa [deviceOf, attrText, nodeText, hvid, hpid] using h
  · cases h

/-- The ids of a supported device are its own. -/
theorem readIds_take (h : supported e = true) (line : Bytes) :
    readIds e line = .ok ((deviceOf e).vid, (deviceOf e).pid, attrText e "idProduct") := by
  obtain ⟨⟨hvid, hpid⟩, -⟩ := supported_files h
  rw [readIds_eq, getD_of_isSome hvid, getD_of_isSome hpid]
  rfl

/-! ## Looking for the serial number -/

/-- A supported device in `convert_sn_to_index`: the number and the serial number. -/
def convertStep (sn : Bytes) (t : Nat × Bytes) (e : SysfsEntry) : (Nat × Bytes) × Bool :=
  let sysfsSn := ((e.files "serial").map Attr.value).getD t.2
  ((t.1 + 1, sysfsSn), strncmpEq sysfsSn sn sn.length)

theorem fst_convertStep (sn : Bytes) (t : Nat × Bytes) (e : SysfsEntry) :
    (convertStep sn t e).1.1 = t.1 + 1 := rfl

/-- The search walks over the supported devices. -/
theorem convert_sim (sn : Bytes) :
    Sim (fun _ => True) (convertTurn sn) supported (fun st => (st.find, st.sysfsSn))
      (convertStep sn) where
  pass st e _ h := by
    obtain ⟨vid, pid, line, hids, hno⟩ := readIds_pass h st.line
    refine ⟨{ st with line := line }, ?_, rfl⟩
    simp only [convertTurn, hids, ok_bind, hno, Bool.false_eq_true, if_false, pure_eq_ok]
  take st e _ h := by
    obtain ⟨-, -, hlist⟩ := supported_files h
    simp only [convertTurn, readIds_take h, ok_bind, if_pos hlist, readSysfsNode_file e _ le_rfl,
      pure_eq_ok]
    exact ⟨_, rfl, rfl⟩

/-- A device has the serial number, or one that starts with it. -/
def hasSn (sn : Bytes) (e : SysfsEntry) : Bool := sn.isPrefixOf (attrText e "serial")

/-- The number is that of the first device with the serial number, or of the last device. -/
private theorem convertSnToIndex_eq {dir : List SysfsEntry} (sn : CString)
    (hserial : ∀ e ∈ devices dir, (e.files "serial").isSome) (line sysfsSn : Bytes) :
    convertSnToIndex (some dir) sn.bytes line sysfsSn = .ok
      (if devices dir = [] then .exit (-1)
        else .ret (min ((devices dir).findIdx (hasSn sn.bytes) + 1)
          (devices dir).length : Nat)) := by
  obtain ⟨st, hloop, hview⟩ :=
    (convert_sim sn.bytes).loop SysfsEntry.hidden ⟨0, line, sysfsSn⟩ dir fun _ _ _ => trivial
  -- Each device has a serial number, so the comparison never sees an earlier one's.
  have hstop : ∀ t, ∀ e ∈ devices dir, (convertStep sn.bytes t e).2 = hasSn sn.bytes e := by
    intro t e he
    rw [convertStep, getD_of_isSome (hserial e he), hasSn, Bool.eq_iff_iff,
      strncmpEq_start sn.nulFree, List.isPrefixOf_iff_prefix]
  have hfind : st.find = min ((devices dir).findIdx (hasSn sn.bytes) + 1) (devices dir).length := by
    have hcount := count_walk (fst_convertStep sn.bytes) (0, sysfsSn) (devices dir)
    rw [reached_of_elem hstop, List.length_take, Nat.zero_add] at hcount
    rw [← hcount]
    exact congrArg Prod.fst hview
  rw [convertSnToIndex, hloop, ok_bind, hfind]
  by_cases hnil : devices dir = []
  · rw [if_pos (by simp [hnil]), if_pos hnil]
    rfl
  · have hpos := List.length_pos_of_ne_nil hnil
    rw [if_neg (by omega), if_neg hnil]
    rfl

/-! ## Taking a device -/

/-- A supported device in `select_usb_dev_by_index`: the number and `usb_dev`. -/
def selectStep (index : Int) (t : Nat × UsbDev) (e : SysfsEntry) : (Nat × UsbDev) × Bool :=
  ((t.1 + 1, if index = (t.1 + 1 : Nat) then deviceOf e else t.2), index = (t.1 + 1 : Nat))

theorem fst_selectStep (index : Int) (t : Nat × UsbDev) (e : SysfsEntry) :
    (selectStep index t e).1.1 = t.1 + 1 := rfl

/-- The loop breaks off at the device with the number. -/
theorem snd_selectStep (k : Nat) (t : Nat × UsbDev) (e : SysfsEntry) :
    (selectStep k t e).2 = decide (t.1 + 1 = k) := by
  simp only [selectStep, Int.natCast_inj, eq_comm]

/-- So does the selection. -/
theorem select_sim (index : Int) :
    Sim (fun _ => True) (selectTurn index) supported (fun st => (st.find, st.usbDev))
      (selectStep index) where
  pass st e _ h := by
    obtain ⟨vid, pid, line, hids, hno⟩ := readIds_pass h st.line
    refine ⟨{ st with line := line }, ?_, rfl⟩
    simp only [selectTurn, hids, ok_bind, hno, Bool.false_eq_true, if_false, pure_eq_ok]
  take st e _ h := by
    -- A supported device has its ids and its place, so no default is taken.
    obtain ⟨-, ⟨hbus, hdev⟩, hlist⟩ := supported_files h
    have hsize : lineSize ≤ pathMax := by decide
    simp only [selectTurn, readIds_take h, ok_bind, if_pos hlist, readSysfsNode_file e _ le_rfl,
      readSysfsNode_file e _ hsize, getD_of_isSome hbus, getD_of_isSome hdev, selectStep]
    by_cases hindex : index = (st.find + 1 : Nat)
    · rw [if_pos hindex, if_pos hindex, decide_eq_true hindex]
      exact ⟨_, rfl, rfl⟩
    · rw [if_neg hindex, if_neg hindex, decide_eq_false hindex]
      exact ⟨_, rfl, rfl⟩

/-- The number of a device selects it. -/
theorem selectUsbDevByIndex_eq {dir : List SysfsEntry} {i : Nat} (hi : i < (devices dir).length)
    (usbDev : UsbDev) (line : Bytes) :
    selectUsbDevByIndex (some dir) (i + 1 : Nat) usbDev line =
      .ok (.ret (deviceOf ((devices dir)[i]))) := by
  obtain ⟨st, hloop, hview⟩ :=
    (select_sim (i + 1 : Nat)).loop SysfsEntry.hidden ⟨0, line, usbDev⟩ dir fun _ _ _ => trivial
  obtain ⟨t, ht, hwalk⟩ := walk_of_count (fst_selectStep (i + 1 : Nat)) (snd_selectStep (i + 1))
    (t := (0, usbDev)) hi (by omega)
  -- The walk ends at the device with the number, whatever `usb_dev` held in front of it.
  have hst : (st.find, st.usbDev) = (i + 1, deviceOf ((devices dir)[i])) := by
    rw [hview]
    show walk _ _ (devices dir) = _
    rw [hwalk]
    simp [selectStep, ht]
  obtain ⟨hfind, hdev⟩ := Prod.mk.inj hst
  rw [selectUsbDevByIndex, hloop, ok_bind, hfind, if_neg (by omega), hdev]
  rfl

/-- The device with a number that is not in the list: `usb_dev` keeps what it held. -/
private theorem foldl_selectStep {k : Nat} (l : List SysfsEntry) (t : Nat × UsbDev)
    (hshort : t.1 + l.length < k) :
    l.foldl (fun t e => (selectStep k t e).1) t = (t.1 + l.length, t.2) := by
  -- Induction on the devices: none of them is counted as the one with the number.
  induction l generalizing t with
  | nil => rfl
  | cons e l ih =>
    rw [List.length_cons] at hshort
    have hne : ¬ (k : Int) = (t.1 + 1 : Nat) := by omega
    have hstep : (selectStep k t e).1 = (t.1 + 1, t.2) := by
      simp only [selectStep, if_neg hne]
    rw [List.foldl_cons, hstep, ih _ (by dsimp only; omega), List.length_cons]
    dsimp only
    congr 1
    omega

/-- What a number makes of `usb_dev`: the device with the number, or what it held if there are not
    so many. The process ends if there is no device at all. -/
def byNumber (dir : Option (List SysfsEntry)) (k : Nat) (usbDev : UsbDev) : Ended UsbDev :=
  match dir with
  | none => .ret usbDev
  | some dir =>
    if devices dir = [] then .exit (-1)
    else .ret (((devices dir)[k - 1]?.map deviceOf).getD usbDev)

/-- Every number, in a list of any length. -/
theorem selectUsbDevByIndex_byNumber (dir : Option (List SysfsEntry)) {k : Nat} (hk : 1 ≤ k)
    (usbDev : UsbDev) (line : Bytes) :
    selectUsbDevByIndex dir k usbDev line = .ok (byNumber dir k usbDev) := by
  cases dir with
  | none => rfl
  | some dir =>
    by_cases hi : k - 1 < (devices dir).length
    · have hne : devices dir ≠ [] := List.ne_nil_of_length_pos (by omega)
      have heq := selectUsbDevByIndex_eq hi usbDev line
      rw [Nat.sub_add_cancel hk] at heq
      rw [heq, byNumber, if_neg hne, List.getElem?_eq_getElem hi]
      rfl
    · obtain ⟨st, hloop, hview⟩ :=
        (select_sim k).loop SysfsEntry.hidden ⟨0, line, usbDev⟩ dir fun _ _ _ => trivial
      -- The walk reaches every device, and takes none.
      have hpos : (0, usbDev).1 < k := hk
      change (st.find, st.usbDev) = walk (selectStep k) (0, usbDev) (devices dir) at hview
      rw [walk_eq_foldl, reached_of_count (fst_selectStep k) (snd_selectStep k) hpos,
        List.take_of_length_le (by dsimp only; omega),
        foldl_selectStep _ _ (by dsimp only; omega), Nat.zero_add] at hview
      obtain ⟨hfind, hdev⟩ := Prod.mk.inj hview
      rw [selectUsbDevByIndex, hloop, ok_bind, hfind, hdev, byNumber,
        List.getElem?_eq_none (by omega)]
      by_cases hnil : devices dir = []
      · rw [if_pos hnil, if_pos (by rw [hnil]; rfl)]
        rfl
      · have hlen := List.length_pos_of_ne_nil hnil
        rw [if_neg hnil, if_neg (by omega)]
        rfl

/-! ## The option -/

/-- The first device whose serial number starts with `sn` is taken, and the process ends if there
    is none. `line`, `sysfsSn` and `line'` are what the buffers hold at first. -/
def SelectsBySn (dir : List SysfsEntry) (sn : Bytes) (usbDev : UsbDev)
    (line sysfsSn line' : Bytes) : Prop :=
  (∀ e, (devices dir).find? (hasSn sn) = some e →
    selectBySn (some dir) sn usbDev line sysfsSn line' = .ok (.ret (deviceOf e))) ∧
  ((∀ e ∈ devices dir, hasSn sn e = false) →
    ∃ code, selectBySn (some dir) sn usbDev line sysfsSn line' = .ok (.exit code))

section Option

variable {dir : List SysfsEntry} {sn : CString}

/-- Without a device the process ends. -/
theorem selectBySn_nil (hserial : ∀ e ∈ devices dir, (e.files "serial").isSome)
    (hnil : devices dir = []) (usbDev : UsbDev) (line sysfsSn line' : Bytes) :
    selectBySn (some dir) sn.bytes usbDev line sysfsSn line' = .ok (.exit (-1)) := by
  rw [selectBySn, convertSnToIndex_eq sn hserial, if_pos hnil]
  rfl

/-- The device that is taken: the first with the serial number, or else the last. -/
theorem selectBySn_eq (hserial : ∀ e ∈ devices dir, (e.files "serial").isSome) {i : Nat}
    (hi : i < (devices dir).length)
    (hmin : min ((devices dir).findIdx (hasSn sn.bytes) + 1) (devices dir).length = i + 1)
    (usbDev : UsbDev) (line sysfsSn line' : Bytes) :
    selectBySn (some dir) sn.bytes usbDev line sysfsSn line' =
      .ok (.ret (deviceOf ((devices dir)[i]))) := by
  have hclamp : clampDevIndex ((i + 1 : Nat) : Int) = (i + 1 : Nat) := by
    rw [clampDevIndex, if_neg (by omega)]
  rw [selectBySn, convertSnToIndex_eq sn hserial, if_neg (List.ne_nil_of_length_pos (by omega)),
    hmin, ok_bind]
  dsimp only
  rw [hclamp, selectUsbDevByIndex_eq hi]

/-- The option chooses the right device or none exactly when some supported device has the serial
    number or there is no supported device at all: for every directory whose supported devices
    all have a serial number, every string, and whatever the buffers hold at first. -/
theorem selectsBySn_iff (dir : List SysfsEntry) (sn : CString)
    (hserial : ∀ e ∈ devices dir, (e.files "serial").isSome) (usbDev : UsbDev)
    (line sysfsSn line' : Bytes) :
    SelectsBySn dir sn.bytes usbDev line sysfsSn line' ↔
      (∃ e ∈ devices dir, sn.bytes <+: attrText e "serial") ∨ devices dir = [] := by
  have hsn (e : SysfsEntry) : sn.bytes <+: attrText e "serial" ↔ hasSn sn.bytes e = true := by
    rw [hasSn, List.isPrefixOf_iff_prefix]
  simp only [hsn]
  by_cases hsome : ∃ e ∈ devices dir, hasSn sn.bytes e = true
  · refine iff_of_true ⟨fun e he => ?_, fun hnone => ?_⟩ (.inl hsome)
    · -- The first match is the device at which the counting stops.
      have hlt := List.findIdx_lt_length_of_exists hsome
      rw [selectBySn_eq hserial hlt (by omega), List.find?_eq_some_iff_getElem] at *
      obtain ⟨hp, i, hi, rfl, hbefore⟩ := he
      have hfirst : (devices dir).findIdx (hasSn sn.bytes) = i :=
        (List.findIdx_eq hi).mpr ⟨hp, fun j hj => by simpa using hbefore j hj⟩
      simp only [hfirst]
    · -- Some device has it, so the second part says nothing.
      obtain ⟨e, he, hp⟩ := hsome
      rw [hnone e he] at hp
      cases hp
  · have hnone : ∀ e ∈ devices dir, hasSn sn.bytes e = false := by simpa using hsome
    rw [or_iff_right hsome]
    by_cases hnil : devices dir = []
    · refine iff_of_true ⟨fun e he => ?_, fun _ => ⟨-1, selectBySn_nil hserial hnil _ _ _ _⟩⟩ hnil
      rw [hnil] at he
      cases he
    · -- The counting has come to the end of the list.
      have hend := List.findIdx_eq_length_of_false hnone
      obtain ⟨i, hlen⟩ := Nat.exists_eq_succ_of_ne_zero (List.length_pos_of_ne_nil hnil).ne'
      refine iff_of_false (fun h => ?_) hnil
      obtain ⟨code, hexit⟩ := h.2 hnone
      rw [selectBySn_eq (i := i) hserial (by omega) (by omega)] at hexit
      cases hexit

end Option

/-- The attribute with this text. -/
def shortAttr (text : String) (h : (0 : UInt8) ∉ ascii text ∧ (ascii text).length + 1 < 1024) :
    Attr := ⟨ascii text, h.1, h.2⟩

/-- A supported device with the serial number `A1` on bus 1. -/
def oneCamera : SysfsEntry where
  name := ascii "1-1"
  files attr :=
    if attr = "idVendor" then some (shortAttr "0603" (by decide))
    else if attr = "idProduct" then some (shortAttr "8612" (by decide))
    else if attr = "busnum" then some (shortAttr "1" (by decide))
    else if attr = "devnum" then some (shortAttr "5" (by decide))
    else if attr = "serial" then some (shortAttr "A1" (by decide))
    else none
  ids := by decide
  located := fun _ _ _ _ _ => by decide

/-- One with the serial number `B2` on bus 2. -/
def otherCamera : SysfsEntry where
  name := ascii "2-1"
  files attr :=
    if attr = "idVendor" then some (shortAttr "0603" (by decide))
    else if attr = "idProduct" then some (shortAttr "8612" (by decide))
    else if attr = "busnum" then some (shortAttr "2" (by decide))
    else if attr = "devnum" then some (shortAttr "9" (by decide))
    else if attr = "serial" then some (shortAttr "B2" (by decide))
    else none
  ids := by decide
  located := fun _ _ _ _ _ => by decide

/-- An interface of a camera, without ids. -/
def anInterface : SysfsEntry where
  name := ascii "1-1:1.0"
  files _ := none
  ids := rfl
  located := fun _ _ h _ _ => by cases h

/-- A hub, with ids that the list does not have. -/
def aHub : SysfsEntry where
  name := ascii "usb2"
  files attr :=
    if attr = "idVendor" then some (shortAttr "1d6b" (by decide))
    else if attr = "idProduct" then some (shortAttr "0002" (by decide))
    else if attr = "busnum" then some (shortAttr "2" (by decide))
    else if attr = "devnum" then some (shortAttr "1" (by decide))
    else none
  ids := by decide
  located := fun _ _ _ _ _ => by decide

/-- Two cameras, with an interface and a hub between them. -/
def camerasAndHub : List SysfsEntry := [oneCamera, anInterface, aHub, otherCamera]

/-- With the serial number `B` the second camera is taken. -/
theorem selectsBySn_iff_camera :
    ((devices camerasAndHub).length = 2 ∧ ∀ e ∈ devices camerasAndHub, (e.files "serial").isSome) ∧
    SelectsBySn camerasAndHub (ascii "B") ⟨0, 0, 0, 0, 0, 0, []⟩ [] [] [] ∧
    selectBySn (some camerasAndHub) (ascii "B") ⟨0, 0, 0, 0, 0, 0, []⟩ [] [] [] =
      .ok (.ret (deviceOf otherCamera)) := by
  have hserial : ∀ e ∈ devices camerasAndHub, (e.files "serial").isSome := by decide +kernel
  have hother : otherCamera ∈ devices camerasAndHub :=
    List.mem_filter.mpr ⟨by simp [camerasAndHub], by decide +kernel⟩
  have hselects := (selectsBySn_iff camerasAndHub ⟨ascii "B", by decide⟩ hserial
    ⟨0, 0, 0, 0, 0, 0, []⟩ [] [] []).mpr (.inl ⟨otherCamera, hother, by decide +kernel⟩)
  exact ⟨⟨by decide +kernel, hserial⟩, hselects, by decide +kernel⟩

/-- With the serial number `B` it is taken as well. -/
theorem not_selectsBySn :
    ¬ (∀ (dir : List SysfsEntry) (sn : CString) (usbDev : UsbDev) (line sysfsSn line' : Bytes),
      (∀ e ∈ devices dir, (e.files "serial").isSome) →
        SelectsBySn dir sn.bytes usbDev line sysfsSn line') ∧
    selectBySn (some [oneCamera]) (ascii "B") ⟨0, 0, 0, 0, 0, 0, []⟩ [] [] [] =
      .ok (.ret (deviceOf oneCamera)) := by
  have htaken : selectBySn (some [oneCamera]) (ascii "B") ⟨0, 0, 0, 0, 0, 0, []⟩ [] [] [] =
      .ok (.ret (deviceOf oneCamera)) := by decide +kernel
  refine ⟨fun h => ?_, htaken⟩
  obtain ⟨code, hexit⟩ := (h [oneCamera] ⟨ascii "B", by decide⟩ ⟨0, 0, 0, 0, 0, 0, []⟩ [] [] []
    (by decide +kernel)).2 (by decide +kernel)
  rw [htaken] at hexit
  cases hexit

end Udb.Spec
