import Udb.Native.Builtin

/-!
# Reading sysfs (`platform_linux.cpp`, `list.cpp`)

A number is read from an attribute file by `read_sysfs_node`, which fills a line
buffer, and `strtoul`. When the file cannot be opened the buffer keeps what it
held, and nobody looks at the result. A buffer is the string that it holds.
-/

namespace Udb.Native

open CMem

/-! ## Numbers -/

/-- The value of a digit. What is no digit has one that is too large for every base. -/
def digitValue (c : UInt8) : Nat :=
  if 48 ≤ c ∧ c ≤ 57 then c.toNat - 48
  else if 97 ≤ c ∧ c ≤ 122 then c.toNat - 87
  else if 65 ≤ c ∧ c ≤ 90 then c.toNat - 55
  else 36

/-- `0x` or `0X` in front of a hexadecimal number. -/
def skipBase (base : Nat) (s : Bytes) : Bytes :=
  match s with
  | 48 :: x :: rest => if base = 16 ∧ (x = 120 ∨ x = 88) then rest else s
  | _ => s

/-- `strtoul(s, NULL, base)` with 64-bit `unsigned long`: blanks, a sign, and as many digits as
    there are. Too large a number becomes `ULONG_MAX`. -/
def strtoul (s : Bytes) (base : Nat) : UInt64 :=
  let s := s.dropWhile isspace
  let (neg, s) := match s with
    | 45 :: rest => (true, rest)
    | 43 :: rest => (false, rest)
    | _ => (false, s)
  let digits := (skipBase base s).takeWhile (digitValue · < base)
  let n := digits.foldl (fun acc c => acc * base + digitValue c) 0
  if 2 ^ 64 ≤ n then UInt64.ofNat (2 ^ 64 - 1)
  else if neg then 0 - UInt64.ofNat n else UInt64.ofNat n

/-- A number read from a text, cut to 16 bits. -/
def hex16 (text : Bytes) : UInt16 := (strtoul text 16).toUInt16

/-- A number read from a text, cut to 8 bits. -/
def dec8 (text : Bytes) : UInt8 := (strtoul text 10).toUInt8

/-! ## Attribute files -/

/-- The size of the line buffers. -/
def lineSize : Nat := 1024

/-- `PATH_MAX` -/
def pathMax : Nat := 4096

/-- An attribute of a device, as the kernel shows it: a text with a newline at its end. -/
structure Attr where
  value : Bytes
  nulFree : (0 : UInt8) ∉ value
  short : value.length + 1 < lineSize

/-- The content of the file. -/
def Attr.text (a : Attr) : Bytes := a.value ++ [10]

/-- `read_sysfs_node(path, buf, size)`, with `file` what the path names. The last character is
    cut off. In an empty file that store is in front of the buffer; a file that fills the
    buffer leaves no terminator. -/
def readSysfsNode (file : Option Bytes) (size : Nat) (buf : Bytes) : Except Fault Bytes :=
  match file with
  | none => pure buf
  | some text =>
    let read := text.take size
    if read.length = size ∧ (0 : UInt8) ∉ read then .error .outOfBounds
    else if cstr read = [] then .error .outOfBounds
    else pure (cstr read).dropLast

/-- Reading an attribute leaves its value, or what was there. -/
theorem readSysfsNode_attr (file : Option Attr) {size : Nat} (hsize : lineSize ≤ size)
    (buf : Bytes) :
    readSysfsNode (file.map Attr.text) size buf = .ok ((file.map Attr.value).getD buf) := by
  cases file with
  | none => rfl
  | some a =>
    -- The file holds one line, which fits and has no NUL.
    have hshort := a.short
    have hnul : (0 : UInt8) ∉ a.text := by
      simpa [Attr.text] using a.nulFree
    have hlen : a.text.length = a.value.length + 1 := List.length_append
    have htake : a.text.take size = a.text := List.take_of_length_le (by omega)
    have hne : a.text ≠ [] := List.ne_nil_of_length_pos (by omega)
    show readSysfsNode (some a.text) size buf = _
    unfold readSysfsNode
    dsimp only
    rw [htake, if_neg (by omega), cstr_of_not_mem hnul, if_neg hne, Attr.text,
      List.dropLast_concat]
    rfl

/-! ## The support list -/

/-- `USB_CLASS_UVC` -/
def usbClassUvc : UInt8 := 0x01

/-- `UDB_BACKEND_STD` -/
def udbBackendStd : UInt8 := 0x01

/-- An entry of the support list. -/
structure SupportDev where
  vid : UInt16
  pid : UInt16
  usbclass : UInt8
  backend : UInt8
  deriving DecidableEq, Repr

/-- `usb_support_list` -/
def usbSupportList : List SupportDev := [⟨0x0603, 0x8612, usbClassUvc, udbBackendStd⟩]

/-- `in_support_list` -/
def inSupportList (vid pid : UInt16) : Bool :=
  usbSupportList.any fun d => vid = d.vid && pid = d.pid

/-- `in_support_list_all` -/
def inSupportListAll (vid pid : UInt16) (usbclass : UInt8) : Bool :=
  usbSupportList.any fun d => vid = d.vid && pid = d.pid && usbclass = d.usbclass

/-- The common search of the functions that look up a field. -/
def supportField (field : SupportDev → UInt8) (vid pid : UInt16) : UInt8 :=
  match usbSupportList.find? fun d => vid = d.vid && pid = d.pid with
  | some d => field d
  | none => 0

/-- `get_support_list_usbclass` -/
def getSupportListUsbclass (vid pid : UInt16) : UInt8 := supportField SupportDev.usbclass vid pid

/-- `get_support_list_backend` -/
def getSupportListBackend (vid pid : UInt16) : UInt8 := supportField SupportDev.backend vid pid

/-- Every listed device is of the class that is listed. -/
theorem inSupportListAll_eq (vid pid : UInt16) :
    inSupportListAll vid pid usbClassUvc = inSupportList vid pid := by
  simp [inSupportListAll, inSupportList, usbSupportList]

/-- No listed device has one number for both. -/
theorem inSupportList_self (x : UInt16) : inSupportList x x = false := by
  simp only [inSupportList, usbSupportList, List.any_cons, List.any_nil, Bool.or_false]
  rw [Bool.and_eq_false_iff]
  by_cases hvid : x = 0x0603
  · right
    subst hvid
    decide
  · left
    simpa using hvid

end Udb.Native
